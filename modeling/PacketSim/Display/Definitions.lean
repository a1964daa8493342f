import PacketSim.Engine.Lifecycle

/-!
# Display — Definitions

`renderer.py` and `main.py`: what is drawn of the engine, and the loop that reads the keyboard,
draws and updates.

A drawing call is a `Command`; one frame is a `Picture`, its graph and its side panel each a list of
commands in the order of the calls.  Fonts measure nothing, so of a text only its corner is known.
The renderer's own arithmetic, and what its texts format, is in doubles as in the source: each
operation is followed by a `rounded`.  The clock is added to as the engine is told (`Clock`); the
other times of the engine come as they are, exact.
The attributes that only the renderer reads, `pos` and `description`, are kept beside the engine in
`App`: `load_topology` sets them together with the name.  What pygame itself does (the window, the
clock, the event queue) is an input: the size of the display, and for each frame the events and the
milliseconds that `clock.tick` returns.
-/

namespace PacketSim
open Lib

/-! ### Numbers as text -/

/-- `int(x)`, towards zero. -/
def truncate (x : ℚ) : Int := if 0 ≤ x then ⌊x⌋ else ⌈x⌉

theorem le_truncate {x : ℚ} {a : Int} (ha : 0 ≤ a) (h : a ≤ x) : a ≤ truncate x := by
  have hx : 0 ≤ x := le_trans (by exact_mod_cast ha) h
  rw [truncate, if_pos hx]
  exact Int.le_floor.mpr h

theorem truncate_le {x : ℚ} {b : Int} (hx : 0 ≤ x) (h : x ≤ b) : truncate x ≤ b := by
  rw [truncate, if_pos hx]
  exact_mod_cast (Int.floor_le x).trans h

theorem truncate_nonpos {x : ℚ} (h : x ≤ 0) : truncate x ≤ 0 := by
  unfold truncate
  split
  · exact Int.floor_nonpos h
  · exact Int.ceil_le.mpr (by exact_mod_cast h)

theorem truncate_between {x : ℚ} {a b : Int} (ha : 0 ≤ a) (hax : a ≤ x) (hxb : x ≤ b) :
    a ≤ truncate x ∧ truncate x ≤ b :=
  ⟨le_truncate ha hax, truncate_le (le_trans (by exact_mod_cast ha) hax) hxb⟩

/-- `f"{x:.<digits>f}"`, of a float `x`. -/
def fixed (digits : ℕ) (x : ℚ) : String :=
  let n := (roundHalfEven (x * 10 ^ digits)).natAbs
  let sign := if x < 0 then "-" else ""
  if digits = 0 then sign ++ toString n
  else sign ++ toString (n / 10 ^ digits) ++ "." ++
    String.leftpad digits '0' (toString (n % 10 ^ digits))

/-- `f"{x:.0%}"`, of a float `x`. -/
def percent (x : ℚ) : String := fixed 0 (rounded (x * 100)) ++ "%"

/-- How the panel shows a flag. -/
def onOff (b : Bool) : String := if b then "on" else "off"

/-! ### Packets -/

/-- The name of a mode, as packets and panel show it. -/
def Mode.text : Mode → String
  | .udp => "UDP"
  | .tcp => "TCP"

/-- `Packet.label`: an acknowledgement shows what it acknowledges, a data packet its sequence. -/
def Packet.label (p : Packet) : String :=
  match p.packetType with
  | .ack =>
      match p.ackFor with
      | some k => "ACK " ++ toString k
      | none => "ACK None"
  | .data => p.protocol.text ++ " " ++ toString p.sequence

/-- The share of its time that a flight has spent, exactly; a flight that takes no time is at its
end. -/
def InFlightPacket.progress (f : InFlightPacket) : ℚ :=
  if f.totalTimeMs ≤ 0 then 1 else max 0 (min 1 (1 - f.remainingTimeMs / f.totalTimeMs))

/-- `progress`, each of its operations rounded. -/
def InFlightPacket.progressFloat (f : InFlightPacket) : ℚ :=
  if f.totalTimeMs ≤ 0 then 1
  else max 0 (min 1 (rounded (1 - rounded (f.remainingTimeMs / f.totalTimeMs))))

/-! ### The lines of the side panel -/

namespace Engine

variable {σ : Type}

/-- What the engine is set to. -/
def getStatusLines (e : Engine σ) : List String :=
  let modeLabel := e.mode.text ++ "-like"
  let trafficLabel := if e.trafficPort = 80 then "HTTP/80" else "HTTPS/443"
  let runState := if e.running then "Running" else "Idle"
  ["Mode: " ++ modeLabel ++ "   State: " ++ runState,
    "Topology: " ++ e.graphManager.currentTopologyName,
    "Conditions: loss=" ++ percent (rounded e.conditions.lossRate) ++ ", delay x" ++
      fixed 1 (rounded e.conditions.delayMultiplier) ++ ", duplicate=" ++
      onOff (decide (0 < e.conditions.duplicateRate)) ++ ", chaos=" ++ onOff e.conditions.chaosMode,
    "Traffic: " ++ trafficLabel ++ ", SDN=" ++ onOff e.useSdn ++ ", source=" ++ toString e.source ++
      ", destination=" ++ toString e.destination]

/-- The counters of the run and its time so far. -/
def getStatLines (e : Engine σ) : List String :=
  ["Packets sent: " ++ toString e.stats.packetsSent,
    "Packets delivered: " ++ toString e.stats.packetsDelivered ++ "/" ++ toString e.packetGoal,
    "Packets dropped: " ++ toString e.stats.packetsDropped,
    "Retransmissions: " ++ toString e.stats.retransmissions,
    "Duplicates: " ++ toString e.stats.duplicatePackets,
    "Acknowledgements: " ++ toString e.stats.acknowledgements,
    "Completion time: " ++ fixed 2 (rounded (e.elapsedMs / 1000)) ++ "s"]

end Engine

/-- The keys `handle_keydown` knows. -/
def getControls : List String :=
  ["SPACE start run", "M switch UDP/TCP", "T cycle topology", "C toggle chaos",
    "D toggle duplicates", "S toggle SDN firewall", "P toggle traffic port 443/80",
    "[ / ] adjust loss", "- / = adjust delay", "R reset"]

/-! ### Drawing -/

/-- A pixel, from the left and from the top. -/
abbrev Point := Int × Int

/-- Red, green and blue. -/
abbrev Color := ℕ × ℕ × ℕ

/-- The three fonts of the renderer. -/
inductive Font where
  | title
  | body
  | small
  deriving DecidableEq

/-- The calls of `pygame.draw` and `blit`; a circle of width 0 is filled. -/
inductive Command where
  | rect (color : Color) (topLeft : Point) (width height : Int)
  | line (color : Color) (start stop : Point) (width : ℕ)
  | circle (color : Color) (center : Point) (radius : ℕ) (width : ℕ := 0)
  | text (font : Font) (label : String) (color : Color) (topLeft : Point)
  deriving DecidableEq

/-- One frame, after the screen is filled. -/
structure Picture where
  graph : List Command
  panel : List Command

/-- The engine, and what only the renderer reads of its graph manager. -/
structure App (σ : Type) where
  engine : Engine σ
  pos : Dict Int (ℚ × ℚ) := .empty
  description : String := ""

/-- The radius of a router's circle. -/
def nodeRadius : ℕ := 22

/-- `pygame.display.Info()`, whose sizes are C ints. -/
structure DisplayInfo where
  currentW : Int
  currentH : Int
  fits : currentW < 2 ^ 31 ∧ currentH < 2 ^ 31

/-- `Renderer.width` and `Renderer.height`, which are never less than 1280 and 800. -/
structure Renderer where
  width : Int
  height : Int
  wide : 1280 ≤ width ∧ width ≤ 2 ^ 31
  tall : 800 ≤ height ∧ height ≤ 2 ^ 31

/-- A part of a length of a display, in floats. -/
theorem truncate_part_le {n : Int} {x : ℚ} (hn : n < 2 ^ 31) (hx : 0 ≤ x ∧ x ≤ 1) :
    truncate (rounded (n * x)) ≤ 2 ^ 31 := by
  rcases le_total 0 n with h | h
  · have h' : (0 : ℚ) ≤ n := by exact_mod_cast h
    have hlt : (n : ℚ) < 2 ^ 31 := by exact_mod_cast hn
    refine truncate_le (rounded_nonneg (mul_nonneg h' hx.1)) ?_
    refine rounded_le_intCast (by norm_num) ?_
    push_cast
    nlinarith
  · have h' : (n : ℚ) ≤ 0 := by exact_mod_cast h
    have hneg : rounded (n * x) ≤ 0 := by
      exact_mod_cast rounded_le_intCast (n := 0) (by norm_num)
        (by simpa using mul_nonpos_of_nonpos_of_nonneg h' hx.1)
    refine (truncate_nonpos hneg).trans (by norm_num)

namespace Renderer

/-- The renderer on a display. -/
def init (displayInfo : DisplayInfo) : Renderer where
  width := max 1280 (truncate (rounded (displayInfo.currentW * rounded (94/100))))
  height := max 800 (truncate (rounded (displayInfo.currentH * rounded (92/100))))
  wide := ⟨le_max_left _ _, max_le (by norm_num)
    (truncate_part_le displayInfo.fits.1 (by decide +kernel))⟩
  tall := ⟨le_max_left _ _, max_le (by norm_num)
    (truncate_part_le displayInfo.fits.2 (by decide +kernel))⟩

/-- The width of the graph, left of the panel. -/
def graphWidth (r : Renderer) : Int := truncate (rounded (r.width * rounded (68/100)))

/-- The pixel of a position, which is in floats as its table has it. -/
def toScreen (r : Renderer) (pos : ℚ × ℚ) : Point :=
  (truncate (rounded (rounded (rounded pos.1 + rounded (115/100)) *
      rounded (r.graphWidth / rounded (24/10)))),
    truncate (rounded (rounded (rounded pos.2 + rounded (105/100)) *
      rounded (r.height / rounded (21/10)))))

/-- `self._to_screen(self.graph_manager.pos[node])` -/
def place (r : Renderer) (pos : Dict Int (ℚ × ℚ)) (node : Int) : Except PyError Point :=
  (getItem pos node).map r.toScreen

/-- What a packet is decides its color before how it travels. -/
def packetColor (p : Packet) (delayed : Bool) : Color :=
  if p.packetType = .ack then (120, 205, 255)
  else if p.duplicate then (206, 145, 255)
  else if p.retransmission then (255, 205, 124)
  else if delayed then (255, 221, 112)
  else if p.protocol = .udp then (255, 156, 94)
  else (112, 220, 160)

/-- The cross that marks a drop. -/
def drawCross (center : Point) (color : Color) : List Command :=
  [.line color (center.1 - 9, center.2 - 9) (center.1 + 9, center.2 + 9) 3,
    .line color (center.1 - 9, center.2 + 9) (center.1 + 9, center.2 - 9) 3]

/-- The middle of two pixels, rounded down. -/
def midpoint (a b : Point) : Point := ((a.1 + b.1) / 2, (a.2 + b.2) / 2)

section Graph
variable (r : Renderer) (pos : Dict Int (ℚ × ℚ))

/-- A link, with its delay above its middle. -/
def drawEdge (edge : Int × Int × EdgeData) : Except PyError (List Command) := do
  let pointA ← r.place pos edge.1
  let pointB ← r.place pos edge.2.1
  let midpoint := midpoint pointA pointB
  return [.line (92, 110, 130) pointA pointB 3,
    .text .small (toString edge.2.2.delayMs ++ " ms") (160, 173, 190)
      (midpoint.1 - 20, midpoint.2 - 12)]

/-- The first loop over `packet_events`. -/
def drawDrop (ev : PacketEvent) : Except PyError (List Command) :=
  match ev.kind, ev.startNode, ev.endNode with
  | .drop, some startNode, some endNode => do
      let start ← r.place pos startNode
      let stop ← r.place pos endNode
      let midpoint := midpoint start stop
      return drawCross midpoint (225, 90, 90) ++
        [.text .small ev.label (236, 158, 158) (midpoint.1 - 28, midpoint.2 - 26)]
  | .drop, some startNode, none => do
      let point ← r.place pos startNode
      return drawCross point (225, 90, 90) ++
        [.text .small ev.label (236, 158, 158) (point.1 - 28, point.2 - 42)]
  | _, _, _ => return []

/-- The point of a flight on its way. -/
def flightPoint (start stop : Point) (progress : ℚ) : Point :=
  (truncate (rounded (start.1 + rounded ((stop.1 - start.1) * progress))),
    truncate (rounded (start.2 + rounded ((stop.2 - start.2) * progress))))

/-- A packet on its link; a retransmission has a ring around it. -/
def drawFlight (f : InFlightPacket) : Except PyError (List Command) := do
  let start ← r.place pos f.startNode
  let stop ← r.place pos f.endNode
  let point := flightPoint start stop f.progressFloat
  let halo := if f.packet.retransmission then [.circle (255, 225, 150) point 13 2] else []
  return .circle (packetColor f.packet f.delayed) point 10 :: halo ++
    [.text .small f.packet.label (240, 240, 240) (point.1 + 12, point.2 - 8)]

/-- A router, with its name; the two ends of the traffic stand out. -/
def drawNode (source destination node : Int) : Except PyError (List Command) := do
  let point ← r.place pos node
  let isEndpoint := node = source ∨ node = destination
  return [.circle (if isEndpoint then (90, 170, 255) else (88, 114, 140)) point nodeRadius,
    .circle (230, 240, 255) point nodeRadius 2,
    .text .body ("R" ++ toString node) (12, 18, 24) (point.1 - 14, point.2 - 10)]

/-- The second loop over `packet_events`. -/
def drawDelivery (ev : PacketEvent) : Except PyError (List Command) :=
  match ev.kind, ev.node with
  | .delivered, some node => do
      let point ← r.place pos node
      return [.circle (100, 225, 150) point (nodeRadius + 8) 3,
        .text .small ev.label (165, 235, 188) (point.1 - 18, point.2 - 42)]
  | _, _ => return []

end Graph

/-- The graph, from the background up: links, drops, flights, routers, deliveries, headings. -/
def drawGraph {σ : Type} (r : Renderer) (a : App σ) : Except PyError (List Command) := do
  let e := a.engine
  let edges ← e.graphManager.graph.edgesData.mapM (r.drawEdge a.pos)
  let drops ← e.packetEvents.mapM (r.drawDrop a.pos)
  let flights ← e.inFlightPackets.mapM (r.drawFlight a.pos)
  let nodes ← e.graphManager.graph.nodes.mapM (r.drawNode a.pos e.source e.destination)
  let deliveries ← e.packetEvents.mapM (r.drawDelivery a.pos)
  return [.rect (24, 31, 42) (0, 0) r.graphWidth r.height] ++ edges.flatten ++ drops.flatten ++
    flights.flatten ++ nodes.flatten ++ deliveries.flatten ++
    [.text .title "Network Topology" (240, 244, 250) (24, 18),
      .text .small a.description (176, 188, 204) (24, 52)]

/-- Lines of text one below the other, the first at `y`. -/
def drawLines (r : Renderer) (font : Font) (color : Color) (y step : Int) (lines : List String) :
    List Command :=
  lines.mapIdx fun i line => .text font line color (r.graphWidth + 24, y + i * step)

/-- The legend, in the order shown. -/
def legendItems : List (Color × String) :=
  [((255, 156, 94), "UDP data"), ((112, 220, 160), "TCP data"), ((120, 205, 255), "ACK packet"),
    ((255, 204, 112), "Delayed packet"), ((206, 145, 255), "Duplicate packet"),
    ((255, 96, 96), "Dropped packet")]

/-- The panel, each section below the one before. -/
def drawSidePanel {σ : Type} (r : Renderer) (e : Engine σ) : List Command :=
  let left := r.graphWidth + 24
  let status := e.getStatusLines
  let stats := e.getStatLines
  let ySection := 24 + 44 + status.length * 28 + 12
  let yStats := ySection + 32
  let yLegend := yStats + stats.length * 28 + 18
  let yItems := yLegend + 28
  let yControls := yItems + legendItems.length * 26 + 18
  [.rect (30, 36, 48) (r.graphWidth, 0) (r.width - r.graphWidth) r.height,
    .line (75, 86, 105) (r.graphWidth, 0) (r.graphWidth, r.height) 2,
    .text .title "Protocol Simulator" (244, 247, 252) (left, 24)] ++
  r.drawLines .body (215, 223, 234) (24 + 44) 28 status ++
  [.text .body "Run Stats" (246, 211, 123) (left, ySection)] ++
  r.drawLines .body (225, 230, 238) yStats 28 stats ++
  [.text .body "Legend" (246, 211, 123) (left, yLegend)] ++
  (legendItems.mapIdx fun i item =>
    [.circle item.1 (r.graphWidth + 36, yItems + i * 26 + 8) 8,
      .text .body item.2 (225, 230, 238) (r.graphWidth + 54, yItems + i * 26)]).flatten ++
  [.text .body "Controls" (246, 211, 123) (left, yControls)] ++
  r.drawLines .small (199, 208, 220) (yControls + 28) 22 getControls

/-- One frame. -/
def draw {σ : Type} (r : Renderer) (a : App σ) : Except PyError Picture := do
  let graph ← r.drawGraph a
  return { graph, panel := r.drawSidePanel a.engine }

end Renderer

/-! ### `main` -/

/-- `TopologySpec.description` of each preset. -/
def descriptions : Dict String String :=
  .ofList
    [("Campus Backbone", "Balanced multi-path topology for the default TCP vs UDP demo."),
      ("Bottleneck Path", "A narrow center link makes packet loss and delay easier to observe."),
      ("Redundant Ring", "A looped topology that highlights alternate routes and duplicates.")]

/-- The name that `cycle_topology` loads. -/
def GraphManager.nextTopology (m : GraphManager) (step : Int := 1) : Except PyError String :=
  let names := topologyPresets.keys
  if m.currentTopologyName = "" then .ok (names.getD 0 "")
  else match names.idxOf? m.currentTopologyName with
    | none => .error (.valueError "list.index(x): x not in list")
    | some currentIndex => .ok (names.getD ((currentIndex + step) % names.length).toNat "")

/-- The keys with a case in `handle_keydown`, and any other. -/
inductive Key where
  | escape
  | space
  | m
  | t
  | c
  | d
  | s
  | p
  | leftBracket
  | rightBracket
  | minus
  | equals
  | plus
  | r
  | other
  deriving DecidableEq

/-- The events with a case in the loop of `main`, and any other. -/
inductive InputEvent where
  | quit
  | keydown (key : Key)
  | other
  deriving DecidableEq

/-- The events of one pass of the loop of `main`, and what `clock.tick` returns in it, a C int. -/
structure Frame where
  events : List InputEvent
  dtMs : ℕ
  fits : dtMs < 2 ^ 31

namespace App

variable {σ : Type}

/-- `load_topology` has loaded the preset `name` into the graph manager of `engine`. -/
def loaded (engine : Engine σ) (name : String) : Except PyError (App σ) := do
  let spec ← getItem topologyPresets name
  let description ← getItem descriptions name
  return { engine, pos := spec.positions, description }

/-- `setup_topology` with a name, the renderer's data included. -/
def setupTopology (a : App σ) (topologyName : String) : Except PyError (App σ) := do
  let engine ← (a.engine.setupTopology (some topologyName)).mapError Raised.error
  loaded engine topologyName

/-- `cycle_topology`, the renderer's data included. -/
def cycleTopology (a : App σ) : Except PyError (App σ) := do
  let name ← a.engine.graphManager.nextTopology
  let engine ← a.engine.cycleTopology.mapError Raised.error
  loaded engine name

section Draws
variable [RandomSource σ] [Clock]

/-- `handle_keydown`; nothing is returned where it raises `SystemExit`. -/
def handleKeydown (a : App σ) : Key → Except PyError (Option (App σ))
  | .escape => return none
  | .space => return some { a with engine := ← a.engine.startRun }
  | .m => return some { a with engine := a.engine.toggleMode }
  | .t => return some (← a.cycleTopology)
  | .c => return some { a with engine := a.engine.toggleChaos }
  | .d => return some { a with engine := a.engine.toggleDuplicates }
  | .s => return some { a with engine := ← a.engine.toggleSdn.mapError Raised.error }
  | .p => return some { a with engine := a.engine.toggleTrafficProfile }
  | .leftBracket => return some { a with engine := a.engine.adjustLossRate (-2/100) }
  | .rightBracket => return some { a with engine := a.engine.adjustLossRate (2/100) }
  | .minus => return some { a with engine := a.engine.adjustDelayMultiplier (-1/10) }
  | .equals | .plus => return some { a with engine := a.engine.adjustDelayMultiplier (1/10) }
  | .r => return some { a with engine := a.engine.resetRunState true }
  | .other => return some a

/-- The loop over `pygame.event.get()`: whether to go on, and the application after the keys; or
nothing, once a key has raised `SystemExit`. -/
def handleEvents (a : App σ) (running : Bool := true) :
    List InputEvent → Except PyError (Option (Bool × App σ))
  | [] => return some (running, a)
  | .quit :: events => a.handleEvents false events
  | .keydown key :: events => do
      match ← a.handleKeydown key with
      | none => return none
      | some a => a.handleEvents running events
  | .other :: events => a.handleEvents running events

/-- `while running`, over the frames that come: the pictures drawn. -/
def loop (r : Renderer) (a : App σ) : List Frame → Except PyError (List Picture)
  | [] => return []
  | frame :: frames => do
      match ← a.handleEvents true frame.events with
      | none => return []
      | some (running, a) =>
          let picture ← r.draw a
          let engine ← a.engine.update frame.dtMs
          if running then return picture :: (← loop r { a with engine } frames)
          else return [picture]

end Draws

end App

/-- `main`, on a display, with the generator of the engine seeded. -/
def main {σ : Type} [RandomSource σ] [Clock] (seeded : σ) (displayInfo : DisplayInfo)
    (frames : List Frame) : Except PyError (List Picture) := do
  let a ← App.setupTopology { engine := { graphManager := .init, random := seeded } }
    "Campus Backbone"
  a.loop (.init displayInfo) frames

end PacketSim
