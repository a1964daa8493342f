import PacketSim.Display.Drawing
import PacketSim.Engine.Clocks
import PacketSim.Engine.Firewall
import PacketSim.Engine.Packets

/-!
# Display — Program

The whole program.  A key is an operation of the engine (`Key.operation`), so the states that are
drawn are those of a session that starts on the campus (`App.From`); and the place of every node
follows the preset that is loaded.  So nothing the user does makes the program raise, and it draws
one picture a frame, each within its parts of the window (`main_total`).  A frame takes whole
milliseconds, and the clock of the source adds them exactly (`App.loop_double`).
-/

namespace PacketSim
open Lib

/-- What a key asks of the engine. -/
def Key.operation : Key → Option Operation
  | .escape | .other => none
  | .space => some .startRun
  | .m => some .toggleMode
  | .t => some .cycleTopology
  | .c => some .toggleChaos
  | .d => some .toggleDuplicates
  | .s => some .toggleSdn
  | .p => some .toggleTrafficProfile
  | .leftBracket => some (.adjustLossRate (-2/100))
  | .rightBracket => some (.adjustLossRate (2/100))
  | .minus => some (.adjustDelayMultiplier (-1/10))
  | .equals | .plus => some (.adjustDelayMultiplier (1/10))
  | .r => some (.resetRunState true)

namespace GraphManager

theorem nextTopology_preset {name : String} {spec : TopologySpec}
    (h : topologyPresets.get? name = some spec) :
    (preset spec).nextTopology = .ok (nextPreset name) := by
  rw [nextTopology, preset_name h]
  rcases presets_cases h with ⟨rfl, -⟩ | ⟨rfl, -⟩ | ⟨rfl, -⟩ <;> rfl

/-- `cycle_topology` loads the topology that it names. -/
theorem cycleTopology_eq (m : GraphManager) (step : Int) :
    m.cycleTopology step = m.nextTopology step >>= m.loadTopology := by
  unfold cycleTopology nextTopology
  dsimp only
  split
  · rfl
  · cases topologyPresets.keys.idxOf? m.currentTopologyName with
    | none => rfl
    | some currentIndex => rfl

end GraphManager

namespace App

variable {σ : Type}

/-- The places and the description are those of the preset that is loaded. -/
def Shows (a : App σ) : Prop :=
  ∃ name spec, topologyPresets.get? name = some spec ∧ a.engine.graphManager = .preset spec ∧
    a.pos = spec.positions ∧ descriptions.get? name = some a.description

theorem loaded_total {engine : Engine σ} {name : String} (h : engine.Loaded name) :
    ∃ a, loaded engine name = .ok a ∧ a.engine = engine ∧ a.Shows := by
  obtain ⟨spec, hspec, hpreset⟩ := h.preset
  have hdescription : ∃ d, descriptions.get? name = some d := by
    rcases GraphManager.presets_cases hspec with ⟨rfl, -⟩ | ⟨rfl, -⟩ | ⟨rfl, -⟩
    · exact ⟨_, rfl⟩
    · exact ⟨_, rfl⟩
    · exact ⟨_, rfl⟩
  obtain ⟨description, hd⟩ := hdescription
  refine ⟨{ engine, pos := spec.positions, description }, ?_, rfl, name, spec, hspec, hpreset, rfl,
    hd⟩
  rw [loaded, getItem_eq_ok.mpr hspec, getItem_eq_ok.mpr hd]
  rfl

section Draws
variable [RandomSource σ]

/-- The engine is in a session that began in `start`, and the application shows its topology. -/
structure From (start : Engine σ) (a : App σ) : Prop where
  session : ∃ ops, (∀ op ∈ ops, op.Framed) ∧ start.session ops = .ok a.engine
  shows : a.Shows

variable {start : Engine σ} {a : App σ}

/-- The session goes on. -/
theorem From.perform (h : a.From start) {op : Operation} (hop : op.Framed) {e : Engine σ}
    (hp : a.engine.perform op = .ok e) :
    ∃ ops, (∀ op ∈ ops, op.Framed) ∧ start.session ops = .ok e := by
  obtain ⟨ops, hops, hs⟩ := h.session
  refine ⟨ops ++ [op], List.forall_mem_append.mpr ⟨hops, by simpa using hop⟩, ?_⟩
  rw [Engine.session, List.foldlM_append, bind_eq_ok]
  exact ⟨_, hs, by rw [List.foldlM_cons, hp]; rfl⟩

/-- `SimulationEngine(GraphManager())` with the generator seeded. -/
def fresh (seeded : σ) : Engine σ := { graphManager := .init, random := seeded }

/-- What the drawing needs of the engine. -/
theorem From.sound {seeded : σ} (h : a.From start)
    (hs : (fresh seeded).setupTopology (some "Campus Backbone") = .ok start) :
    a.engine.Ready True ∧ a.engine.Fitting ∧ a.engine.Timed := by
  obtain ⟨ops, hops, hsession⟩ := h.session
  have hrange : (fresh seeded).conditions.InRange := by
    constructor <;> norm_num [fresh]
  obtain ⟨hready, hrange, hfit, hflying⟩ := Engine.setup_fitting hrange hs
  have hfitting := (Engine.session_fitting
    ⟨hready.fit, hready.placed, fun _ => hready.loaded trivial⟩ hrange hfit hflying
    (fun op hop => (hops op hop).forward) hsession).2.1
  have htimed : a.engine.Timed :=
    foldlM_invariant (P := Engine.Timed) (fun x op x' hop hx ht =>
      Engine.perform_timed ht (hops op hop) hx) hsession
      (Engine.setup_timed (by norm_num [fresh]) hs)
  refine ⟨?_, hfitting, htimed⟩
  refine foldlM_invariant (P := fun x : Engine σ => x.Ready True) (fun x op x' _ hx hr => ?_)
    hsession hready
  obtain ⟨y, hy, hr'⟩ := Engine.perform_total hr (fun _ => trivial) (hr.paced _)
  obtain rfl : y = x' := Except.ok.inj (hy.symm.trans hx)
  exact hr'

/-! ### Keys -/

/-- An operation that does not cycle the topology shows the same one. -/
theorem From.keep (h : a.From start) {op : Operation} (hop : op.Framed)
    (hcycle : op ≠ .cycleTopology) {e : Engine σ} (hp : a.engine.perform op = .ok e) :
    From start { a with engine := e } where
  session := h.perform hop hp
  shows := by
    obtain ⟨name, spec, hspec, hpreset, hpos, hd⟩ := h.shows
    have hmanager : e.graphManager = a.engine.graphManager := by
      by_cases hsdn : op = .toggleSdn
      · subst hsdn
        exact (Engine.toggleSdn_keeps (Engine.mapError_eq_ok.mp hp)).graphManager
      · exact (Engine.perform_keeps hcycle hsdn hp).graphManager
    exact ⟨name, spec, hspec, hmanager.trans hpreset, hpos, hd⟩

/-- A key performs its operation, and leaves the rest as it is. -/
theorem handleKeydown_eq {key : Key} {op : Operation} (h : key.operation = some op)
    (hcycle : op ≠ .cycleTopology) :
    a.handleKeydown key = (a.engine.perform op).map fun e => some { a with engine := e } := by
  cases key <;> cases h
  case space =>
    show (a.engine.startRun >>= fun e => .ok (some { a with engine := e })) = _
    rw [Engine.perform]
    cases a.engine.startRun with
    | error _ => rfl
    | ok _ => rfl
  case t => exact absurd rfl hcycle
  case s =>
    show (a.engine.toggleSdn.mapError Raised.error >>= fun e =>
      .ok (some { a with engine := e })) = _
    rw [Engine.perform]
    cases a.engine.toggleSdn with
    | error _ => rfl
    | ok _ => rfl
  all_goals rfl

theorem Key.operation_framed {key : Key} {op : Operation} (h : key.operation = some op) :
    op.Framed := by
  cases key <;> cases h <;> trivial

theorem From.cycle {seeded : σ} (h : a.From start)
    (hs : (fresh seeded).setupTopology (some "Campus Backbone") = .ok start) :
    ∃ a', a.cycleTopology = .ok a' ∧ a'.From start := by
  obtain ⟨hready, -⟩ := h.sound hs
  obtain ⟨name, spec, hspec, hpreset, -⟩ := h.shows
  have hperform : ∃ e, a.engine.perform .cycleTopology = .ok e ∧ e.Ready True :=
    Engine.perform_total hready (fun _ => trivial) (hready.paced _)
  obtain ⟨e, he, -⟩ := hperform
  have hloaded : e.Loaded (GraphManager.nextPreset name) :=
    (Engine.cycleTopology_loaded ⟨⟨spec, hspec, hpreset⟩, hready.fit.wired⟩
      (Engine.mapError_eq_ok.mp he)).1
  obtain ⟨a', ha', rfl, hshows⟩ := loaded_total hloaded
  have hframed : Operation.Framed .cycleTopology := trivial
  refine ⟨a', ?_, h.perform hframed he, hshows⟩
  have he : a.engine.cycleTopology.mapError Raised.error = .ok a'.engine := he
  rw [cycleTopology, hpreset, GraphManager.nextTopology_preset hspec, he]
  exact ha'

/-- **A key does what it asks of the engine**, and nothing it asks raises. -/
theorem handleKeydown_total {seeded : σ} (h : a.From start)
    (hs : (fresh seeded).setupTopology (some "Campus Backbone") = .ok start) {key : Key}
    (hkey : key ≠ .escape) : ∃ a', a.handleKeydown key = .ok (some a') ∧ a'.From start := by
  cases hop : key.operation with
  | none =>
      cases key with
      | escape => exact absurd rfl hkey
      | other => exact ⟨a, rfl, h⟩
      | _ => cases hop
  | some op =>
      by_cases hcycle : op = .cycleTopology
      · subst hcycle
        have ht : key = .t := by cases key <;> cases hop; rfl
        subst ht
        obtain ⟨a', ha', hfrom⟩ := h.cycle hs
        exact ⟨a', by rw [handleKeydown, ha']; rfl, hfrom⟩
      · have hsound := (h.sound hs).1
        obtain ⟨e, he, -⟩ := Engine.perform_total hsound (fun _ => trivial) (hsound.paced _)
        exact ⟨_, by rw [handleKeydown_eq hop hcycle, he]; rfl,
          h.keep (Key.operation_framed hop) hcycle he⟩

/-! ### Frames -/

/-- The loop of `main` goes through the frames until one has the key that raises, or one with the
window closed is over. -/
def passes : List Frame → ℕ
  | [] => 0
  | frame :: frames =>
      if .keydown .escape ∈ frame.events then 0
      else if .quit ∈ frame.events then 1
      else 1 + passes frames

theorem handleEvents_total {seeded : σ}
    (hs : (fresh seeded).setupTopology (some "Campus Backbone") = .ok start) :
    ∀ {events : List InputEvent} {a : App σ} {running : Bool}, a.From start →
      (.keydown .escape ∈ events ∧ a.handleEvents running events = .ok none) ∨
        .keydown .escape ∉ events ∧ ∃ a', a'.From start ∧
          a.handleEvents running events = .ok (some (running && !decide (.quit ∈ events), a')) := by
  intro events
  induction events with
  | nil => exact fun h => .inr ⟨by simp, _, h, by simp [handleEvents, pure, Except.pure]⟩
  | cons event events ih =>
      intro a running h
      cases event with
      | quit =>
          obtain ⟨hesc, heq⟩ | ⟨hesc, a', ha', heq⟩ := @ih a false h
          · exact .inl ⟨List.mem_cons_of_mem _ hesc, by rw [handleEvents, heq]⟩
          · exact .inr ⟨by simpa using hesc, a', ha', by rw [handleEvents, heq]; simp⟩
      | other =>
          obtain ⟨hesc, heq⟩ | ⟨hesc, a', ha', heq⟩ := @ih a running h
          · exact .inl ⟨List.mem_cons_of_mem _ hesc, by rw [handleEvents, heq]⟩
          · exact .inr ⟨by simpa using hesc, a', ha', by rw [handleEvents, heq]; simp⟩
      | keydown key =>
          by_cases hkey : key = .escape
          · subst hkey
            exact .inl ⟨by simp, rfl⟩
          · obtain ⟨a₁, ha₁, h₁⟩ := handleKeydown_total h hs hkey
            have hstep : a.handleEvents running (.keydown key :: events) =
                a₁.handleEvents running events := by
              rw [handleEvents, ha₁]
              rfl
            obtain ⟨hesc, heq⟩ | ⟨hesc, a', ha', heq⟩ := @ih a₁ running h₁
            · exact .inl ⟨List.mem_cons_of_mem _ hesc, hstep.trans heq⟩
            · refine .inr ⟨?_, a', ha', by rw [hstep, heq]; simp⟩
              simpa [Ne.symm hkey] using hesc

/-- One pass of the loop draws, and updates. -/
theorem From.draw {seeded : σ} (h : a.From start)
    (hs : (fresh seeded).setupTopology (some "Campus Backbone") = .ok start) (r : Renderer)
    {dtMs : ℕ} (hdt : dtMs < 2 ^ 31) :
    ∃ p e, r.draw a = .ok p ∧ (∀ c ∈ p.graph, c.Within r.graphArea) ∧
      p.panel = r.drawSidePanel a.engine ∧ a.engine.update dtMs = .ok e ∧
      From start { a with engine := e } := by
  obtain ⟨hready, hfit, -⟩ := h.sound hs
  have hstage : Staged a.pos a.engine.graphManager.graph.nodes := by
    obtain ⟨name, spec, hspec, hpreset, hpos, -⟩ := h.shows
    rw [hpos, hpreset]
    exact staged_preset hspec
  obtain ⟨graph, hgraph, hwithin⟩ := r.drawGraph_total hstage hready.fit.good hfit
  have hframed : Operation.Framed (.update dtMs) := ⟨dtMs, hdt, rfl⟩
  have hperform : ∃ e, a.engine.perform (.update dtMs) = .ok e ∧ e.Ready True :=
    Engine.perform_total hready (by simp) (hready.paced _)
  obtain ⟨e, he, -⟩ := hperform
  refine ⟨⟨graph, r.drawSidePanel a.engine⟩, e, ?_, hwithin, rfl, he, h.keep hframed (by simp) he⟩
  rw [Renderer.draw, hgraph]
  rfl

/-- A picture of a state that a session from `start` reaches, within its parts of the window. -/
structure Proper (start : Engine σ) (r : Renderer) (p : Picture) : Prop where
  graph : ∀ c ∈ p.graph, c.Within r.graphArea
  panel : (∀ c ∈ p.panel, c.Within r.panelArea) ↔ 866 < r.height
  drawn : ∃ (ops : List Operation) (a : App σ), (∀ op ∈ ops, op.Framed) ∧
    start.session ops = .ok a.engine ∧ r.draw a = .ok p

theorem loop_total {seeded : σ}
    (hs : (fresh seeded).setupTopology (some "Campus Backbone") = .ok start) (r : Renderer) :
    ∀ {frames : List Frame} {a : App σ}, a.From start →
      ∃ pictures, a.loop r frames = .ok pictures ∧ pictures.length = passes frames ∧
        ∀ p ∈ pictures, Proper start r p := by
  intro frames
  induction frames with
  | nil => exact fun _ => ⟨[], rfl, rfl, by simp⟩
  | cons frame frames ih =>
      intro a h
      obtain ⟨hesc, heq⟩ | ⟨hesc, a', ha', heq⟩ := handleEvents_total hs (h : a.From start)
      · exact ⟨[], by rw [loop, heq]; rfl, by rw [passes, if_pos hesc]; rfl, by simp⟩
      · obtain ⟨p, e, hdraw, hgraph, hpanel, hupdate, hnext⟩ := ha'.draw hs r frame.fits
        obtain ⟨ops, hops, hsession⟩ := ha'.session
        have hp : Proper start r p :=
          ⟨hgraph, hpanel ▸ r.drawSidePanel_within_iff a'.engine, ops, a', hops, hsession, hdraw⟩
        by_cases hquit : InputEvent.quit ∈ frame.events
        · refine ⟨[p], ?_, by rw [passes, if_neg hesc, if_pos hquit]; rfl, by simpa using hp⟩
          simp [loop, heq, hdraw, hupdate, hquit, bind, Except.bind, pure, Except.pure]
        · obtain ⟨pictures, hloop, hlength, hall⟩ := ih hnext
          refine ⟨p :: pictures, ?_, ?_, List.forall_mem_cons.mpr ⟨hp, hall⟩⟩
          · simp [loop, heq, hdraw, hupdate, hquit, hloop, bind, Except.bind, pure, Except.pure]
          · rw [List.length_cons, hlength, passes, if_neg hesc, if_neg hquit, add_comm]

/-! ### On the clock of the source -/

theorem handleKeydown_double {seeded : σ} (h : a.From start)
    (hs : (fresh seeded).setupTopology (some "Campus Backbone") = .ok start) (key : Key) :
    @handleKeydown σ .double a key = @handleKeydown σ .exact a key := by
  cases key with
  | space =>
      unfold handleKeydown
      rw [Engine.startRun_double (h.sound hs).2.2.goal]
  | _ => rfl

theorem handleEvents_double {seeded : σ}
    (hs : (fresh seeded).setupTopology (some "Campus Backbone") = .ok start) :
    ∀ {events : List InputEvent} {a : App σ} {running : Bool}, a.From start →
      @handleEvents σ .double a running events = @handleEvents σ .exact a running events := by
  intro events
  induction events with
  | nil => exact fun _ => rfl
  | cons event events ih =>
      intro a running h
      cases event with
      | quit => exact ih h
      | other => exact ih h
      | keydown key =>
          unfold handleEvents
          rw [handleKeydown_double h hs key]
          refine bind_congr_ok fun next hnext => ?_
          cases next with
          | none => rfl
          | some a' =>
              by_cases hkey : key = .escape
              · subst hkey
                cases hnext
              · obtain ⟨a₁, ha₁, h₁⟩ := handleKeydown_total h hs hkey
                cases hnext.symm.trans ha₁
                exact ih h₁

/-- The loop draws the same pictures. -/
theorem loop_double {seeded : σ}
    (hs : (fresh seeded).setupTopology (some "Campus Backbone") = .ok start) (r : Renderer) :
    ∀ {frames : List Frame} {a : App σ}, a.From start →
      @loop σ _ .double r a frames = @loop σ _ .exact r a frames := by
  intro frames
  induction frames with
  | nil => exact fun _ => rfl
  | cons frame frames ih =>
      intro a h
      unfold loop
      rw [handleEvents_double hs h]
      obtain ⟨-, heq⟩ | ⟨-, a', ha', heq⟩ :=
        handleEvents_total hs h
      · rw [heq]
        refine bind_congr_ok fun next hok => ?_
        cases hok
        rfl
      · obtain ⟨hready, -, htimed⟩ := ha'.sound hs
        obtain ⟨-, e, -, -, -, hupdate, hnext⟩ := ha'.draw hs r frame.fits
        have hframed : Operation.Framed (.update frame.dtMs) := ⟨frame.dtMs, frame.fits, rfl⟩
        have hsame := Engine.perform_double htimed hready.fit.wired hframed
        have hdouble : @Engine.update σ _ .double a'.engine frame.dtMs = .ok e := by
          rw [← hupdate]
          exact hsame
        rw [heq]
        refine bind_congr_ok fun next hok => ?_
        cases hok
        dsimp only
        rw [hdouble, hupdate]
        refine bind_congr_ok fun p' _ => bind_congr_ok fun e' he' => ?_
        cases he'
        rw [ih hnext]

end Draws

end App

/-- **The program never raises.**  Whatever the display, the generator, the events of each frame and
the time it takes, `main` draws one picture a frame until it is left, on the clock of the source and
on the exact one the same.  Each is of a state of a session on the campus, has its graph within the
graph's part of the window, and its side panel in the window if and only if that is more than 866
pixels high. -/
theorem main_total {σ : Type} [RandomSource σ] (seeded : σ) (displayInfo : DisplayInfo)
    (frames : List Frame) :
    ∃ start pictures, (App.fresh seeded).setupTopology (some "Campus Backbone") = .ok start ∧
      @main σ _ .double seeded displayInfo frames = .ok pictures ∧
      @main σ _ .exact seeded displayInfo frames = .ok pictures ∧
      pictures.length = App.passes frames ∧
      ∀ p ∈ pictures, App.Proper start (.init displayInfo) p := by
  have hname : "Campus Backbone" ∈ GraphManager.getTopologyNames := by decide +kernel
  obtain ⟨start, hs, -⟩ := Engine.preset_setup_total (App.fresh seeded) hname
  obtain ⟨a, ha, rfl, hshows⟩ := App.loaded_total (Engine.setupTopology_preset hs).1
  have hfrom : a.From a.engine := ⟨⟨[], by simp, rfl⟩, hshows⟩
  obtain ⟨pictures, hloop, hlength, hall⟩ := App.loop_total hs (.init displayInfo) hfrom
  have hdouble : @App.loop σ _ .double (.init displayInfo) a frames =
      @App.loop σ _ .exact (.init displayInfo) a frames := App.loop_double hs _ hfrom
  have hsetup : App.setupTopology { engine := App.fresh seeded } "Campus Backbone" = .ok a := by
    rw [App.setupTopology, hs]
    exact ha
  -- both programs set the campus up, and then loop
  have hmain : ∀ clock : Clock, @main σ _ clock seeded displayInfo frames =
      @App.loop σ _ clock (.init displayInfo) a frames := fun clock => by
    show (App.setupTopology { engine := App.fresh seeded } "Campus Backbone" >>= fun a =>
      @App.loop σ _ clock (.init displayInfo) a frames) = _
    rw [hsetup]
    rfl
  exact ⟨a.engine, pictures, hs, by rw [hmain, hdouble, hloop], by rw [hmain, hloop], hlength, hall⟩

end PacketSim
