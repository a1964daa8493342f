import PacketSim.Display.Definitions
import PacketSim.Engine.Packets
import PacketSim.Engine.Traffic
import PacketSim.Graph.Listing

/-!
# Display — Drawing

Where the drawing calls draw.  On every display, and whatever the doubles round, a node of a preset
is at least 72 pixels from every edge of the graph's part of the window; so what is drawn at a node,
along a link or between two nodes stays within that part (`drawGraph_total`).  The side panel takes
the same place in every state, and reaches below the least height of a window
(`drawSidePanel_within_iff`).
-/

namespace PacketSim
open Lib

/-- The progress that is drawn is a fraction of the way. -/
theorem InFlightPacket.progressFloat_range (f : InFlightPacket) :
    0 ≤ f.progressFloat ∧ f.progressFloat ≤ 1 := by
  unfold progressFloat
  split
  · exact ⟨zero_le_one, le_rfl⟩
  · exact ⟨le_max_left _ _, max_le zero_le_one (min_le_left _ _)⟩

/-- With some of its time left, a flight has made the rest of its way. -/
theorem InFlightPacket.progress_eq {f : InFlightPacket} (hpos : 0 < f.remainingTimeMs)
    (hle : f.remainingTimeMs ≤ f.totalTimeMs) :
    f.progress = 1 - f.remainingTimeMs / f.totalTimeMs := by
  have htotal : 0 < f.totalTimeMs := hpos.trans_le hle
  have hratio : 0 < f.remainingTimeMs / f.totalTimeMs ∧ f.remainingTimeMs / f.totalTimeMs ≤ 1 :=
    ⟨div_pos hpos htotal, (div_le_one htotal).mpr hle⟩
  rw [progress, if_neg (not_le.mpr htotal), min_eq_right (by linarith [hratio.1]),
    max_eq_right (by linarith [hratio.2])]

theorem Packet.Genuine.label_eq {s : Setting} {p : Packet} (h : p.Genuine s) :
    p.label =
      (if p.packetType = .ack then "ACK" else s.mode.text) ++ " " ++ toString p.sequence := by
  unfold Packet.label
  split
  · rename_i htype
    rw [(h.ack htype).2.2.2.1, if_pos htype]
    exact congrArg (· ++ toString p.sequence) (by decide : "ACK " = "ACK" ++ " ")
  · rename_i htype
    rw [if_neg (by simp [htype]), h.protocol]

namespace Engine

variable {σ : Type} [RandomSource σ] {e₀ e e' : Engine σ} {dt : ℚ}

/-- **Flights as they are shown.**  After an update every flight on a link was there before it, or
was launched by it with none of its way made; it has made more of its way by the share of its time
that passed, and not all of it; and it is labelled with its own sequence. -/
theorem progress_advances (hfit : e₀.setting.Fit) (hc : 0 ≤ e₀.conditions.delayMultiplier)
    (h : Run e₀ e) (hrun : e.running = true) (hdt : 0 ≤ dt) (hu : e.update dt = .ok e') :
    ∀ f' ∈ e'.inFlightPackets,
      (∃ f, (f ∈ e.inFlightPackets ∨ f ∈ e.launches dt ∧ f.progress = 0) ∧
        f'.packet = f.packet ∧ f'.startNode = f.startNode ∧ f'.endNode = f.endNode ∧
        f'.progress = f.progress + dt / f.totalTimeMs) ∧
      f'.progress < 1 ∧
      f'.packet.label = (if f'.packet.packetType = .ack then "ACK" else e₀.mode.text) ++ " " ++
        toString f'.packet.sequence := by
  intro f' hf'
  have hages := update_flights h hdt hrun hu
  obtain ⟨hfitting, -⟩ := h.fitting hfit hc
  have hgenuine : f'.packet.Genuine e₀.setting :=
    (h.update hdt hu).genuine (List.mem_append_right _ (List.mem_map_of_mem hf'))
  have hlabel := hgenuine.label_eq
  have hmem := hf'
  rw [hages.flights, List.mem_filter, List.mem_map] at hmem
  obtain ⟨⟨f, hf, rfl⟩, hpos⟩ := hmem
  have hpos : 0 < f.remainingTimeMs - dt := of_decide_eq_true hpos
  have hleft : 0 < f.remainingTimeMs := by linarith
  have hle : f.remainingTimeMs ≤ f.totalTimeMs := by
    rcases List.mem_append.mp hf with hf | hf
    · obtain ⟨d, -, -, hle⟩ := hfitting.flights f hf
      exact hle
    · exact (hages.launched f hf).le
  have htotal : 0 < f.totalTimeMs := hleft.trans_le hle
  have hprogress := InFlightPacket.progress_eq hleft hle
  have haged : (f.aged dt).progress = 1 - (f.remainingTimeMs - dt) / f.totalTimeMs :=
    InFlightPacket.progress_eq (f := f.aged dt) hpos ((sub_le_self _ hdt).trans hle)
  refine ⟨⟨f, ?_, rfl, rfl, rfl, ?_⟩, ?_, hlabel⟩
  · refine (List.mem_append.mp hf).imp_right fun hlaunch => ⟨hlaunch, ?_⟩
    rw [hprogress, hages.launched f hlaunch, div_self htotal.ne', sub_self]
  · rw [haged, hprogress]
    ring
  · rw [haged]
    have := div_pos hpos htotal
    linarith

theorem progress_advances_ring : ∃ e e', (Steady.engine "Redundant Ring" .tcp).ticks [16] = .ok e ∧
    e.update 50 = .ok e' ∧ ∀ f' ∈ e'.inFlightPackets, f'.progress < 1 := by
  obtain ⟨e, he, hcheck⟩ := exists_ok_and (x := (Steady.engine "Redundant Ring" .tcp).ticks [16])
    (f := fun e => e.running && (e.update 50).toBool) (by decide +kernel)
  obtain ⟨hrun, hupdate⟩ := Bool.and_eq_true_iff.mp hcheck
  obtain ⟨e', hu⟩ := exists_ok hupdate
  have hmultiplier : 0 ≤ (Steady.engine "Redundant Ring" .tcp).conditions.delayMultiplier := by
    decide +kernel
  exact ⟨e, e', he, hu, fun f' hf' => (progress_advances (steady_fit (by decide +kernel) .tcp)
    hmultiplier (.of_ticks (by decide +kernel) he) hrun (by norm_num) hu f' hf').2.1⟩

end Engine

/-! ### Areas -/

/-- A part of the window. -/
structure Area where
  left : Int
  top : Int
  right : Int
  bottom : Int

/-- The pixel lies in the area, its border included. -/
def Area.Has (a : Area) (p : Point) : Prop :=
  a.left ≤ p.1 ∧ p.1 ≤ a.right ∧ a.top ≤ p.2 ∧ p.2 ≤ a.bottom

/-- What is drawn is within the area; of a text, its corner is. -/
def Command.Within (a : Area) : Command → Prop
  | .rect _ p width height => a.Has p ∧ a.Has (p.1 + width, p.2 + height)
  | .line _ p q _ => a.Has p ∧ a.Has q
  | .circle _ p radius _ => a.Has (p.1 - radius, p.2 - radius) ∧ a.Has (p.1 + radius, p.2 + radius)
  | .text _ _ _ p => a.Has p ∧ p.1 < a.right ∧ p.2 < a.bottom

/-- A position that the presets use. -/
def OnStage (p : ℚ × ℚ) : Prop :=
  (-(95/100) ≤ p.1 ∧ p.1 ≤ 95/100) ∧ (-(55/100) ≤ p.2 ∧ p.2 ≤ 55/100)

instance (p : ℚ × ℚ) : Decidable (OnStage p) :=
  inferInstanceAs (Decidable ((_ ∧ _) ∧ (_ ∧ _)))

/-- Every node has a place on the stage. -/
def Staged (pos : Dict Int (ℚ × ℚ)) (nodes : List Int) : Prop :=
  ∀ node ∈ nodes, ∃ p, pos.get? node = some p ∧ OnStage p

theorem staged_preset {name : String} {spec : TopologySpec}
    (h : topologyPresets.get? name = some spec) :
    Staged spec.positions (GraphManager.preset spec).graph.nodes := by
  have hall : ∀ spec ∈ topologyPresets.values, ∀ node ∈ (GraphManager.preset spec).graph.nodes,
      (spec.positions.get? node).any fun p => decide (OnStage p) := by decide +kernel
  have hmem : spec ∈ topologyPresets.values :=
    List.mem_map_of_mem (f := Prod.snd) (Dict.get?_eq_some.mp h)
  intro node hnode
  obtain ⟨p, hp, hstage⟩ := (Option.any_eq_true _ _).mp (hall spec hmem node hnode)
  exact ⟨p, hp, of_decide_eq_true hstage⟩

namespace Renderer

variable {r : Renderer}

/-- Where the graph is drawn. -/
def graphArea (r : Renderer) : Area := ⟨0, 0, r.graphWidth, r.height⟩

/-- Where the panel is drawn. -/
def panelArea (r : Renderer) : Area := ⟨r.graphWidth, 0, r.width, r.height⟩

theorem graphWidth_le (r : Renderer) : 870 ≤ r.graphWidth ∧ r.graphWidth + 400 ≤ r.width := by
  have hwide : (1280 : ℚ) ≤ r.width := by exact_mod_cast r.wide.1
  have hshare : 68/100 ≤ rounded (68/100) ∧ rounded (68/100) ≤ 681/1000 := by decide +kernel
  have hleast : ((870 : Int) : ℚ) ≤ r.width * rounded (68/100) := by
    push_cast
    nlinarith
  have hmost : r.width * rounded (68/100) ≤ ((r.width - 400 : Int) : ℚ) := by
    push_cast
    nlinarith
  have hlength : |r.width - 400| ≤ 2 ^ 53 := by
    have := r.wide
    rw [abs_le]
    omega
  have hbetween : 870 ≤ r.graphWidth ∧ r.graphWidth ≤ r.width - 400 :=
    truncate_between (by norm_num) (intCast_le_rounded (by norm_num) hleast)
      (rounded_le_intCast hlength hmost)
  exact ⟨hbetween.1, by omega⟩

/-- Well inside the graph's part of the window. -/
def Inset (r : Renderer) (p : Point) : Prop :=
  (72 ≤ p.1 ∧ p.1 ≤ r.graphWidth - 72) ∧ (72 ≤ p.2 ∧ p.2 ≤ r.height - 72)

/-- A coordinate at the fraction `s / c` of a length, which rounding hardly moves. -/
theorem truncate_scaled {n least : Int} {s c : ℚ} (hc : 1 ≤ c ∧ c ≤ 3) (hleast : 750 ≤ least)
    (hn : least ≤ n ∧ n ≤ 2 ^ 31) (hs : 0 ≤ s) (hlow : 72 ≤ s * rounded (least / c))
    (hhigh : s ≤ c * (9/10)) :
    72 ≤ truncate (rounded (s * rounded (n / c))) ∧
      truncate (rounded (s * rounded (n / c))) ≤ n - 72 := by
  have hc₀ : 0 < c := by linarith [hc.1]
  have hn' : (750 : ℚ) ≤ n := by exact_mod_cast hleast.trans hn.1
  have hle : (least : ℚ) ≤ n := by exact_mod_cast hn.1
  have hmono : rounded (least / c) ≤ rounded (n / c) :=
    rounded_mono (div_le_div_of_nonneg_right hle hc₀.le)
  have hceil : rounded (n / c) ≤ n / c + 1 := by
    have hmost : n / c ≤ n := div_le_self (by linarith) hc.1
    have hlength : |⌈(n / c : ℚ)⌉| ≤ 2 ^ 53 := by
      have h₁ : ⌈(n / c : ℚ)⌉ ≤ n := Int.ceil_le.mpr hmost
      have h₀ : 0 ≤ ⌈(n / c : ℚ)⌉ := Int.ceil_nonneg (div_nonneg (by linarith) hc₀.le)
      rw [abs_le]
      omega
    exact (rounded_le_intCast hlength (Int.le_ceil _)).trans (Int.ceil_lt_add_one _).le
  have hmost : s * rounded (n / c) ≤ ((n - 72 : Int) : ℚ) := by
    calc s * rounded (n / c) ≤ s * (n / c + 1) := mul_le_mul_of_nonneg_left hceil hs
      _ ≤ c * (9/10) * (n / c + 1) :=
          mul_le_mul_of_nonneg_right hhigh (by positivity)
      _ = 9/10 * n + 9/10 * c := by field_simp
      _ ≤ ((n - 72 : Int) : ℚ) := by
          push_cast
          linarith [hc.2]
  have hlength : |n - 72| ≤ 2 ^ 53 := by
    rw [abs_le]
    omega
  refine truncate_between (by norm_num) (intCast_le_rounded (by norm_num) ?_)
    (rounded_le_intCast hlength hmost)
  push_cast
  exact hlow.trans (mul_le_mul_of_nonneg_left hmono hs)

/-- A shifted position, between those of the ends of the stage. -/
theorem shifted_between {x lo hi d : ℚ} (h : lo ≤ x ∧ x ≤ hi) :
    rounded (rounded lo + rounded d) ≤ rounded (rounded x + rounded d) ∧
      rounded (rounded x + rounded d) ≤ rounded (rounded hi + rounded d) :=
  ⟨rounded_mono (add_le_add_left (rounded_mono h.1) _),
    rounded_mono (add_le_add_left (rounded_mono h.2) _)⟩

theorem toScreen_inset {p : ℚ × ℚ} (h : OnStage p) : r.Inset (r.toScreen p) := by
  obtain ⟨hx₁, hx₂⟩ := shifted_between (d := 115/100) h.1
  obtain ⟨hy₁, hy₂⟩ := shifted_between (d := 105/100) h.2
  have hwidth := r.graphWidth_le
  have hwide := r.wide
  constructor
  · have hends : 0 ≤ rounded (rounded (-(95/100)) + rounded (115/100)) ∧
        72 ≤ rounded (rounded (-(95/100)) + rounded (115/100)) *
          rounded ((870 : Int) / rounded (24/10)) ∧ 0 ≤ rounded ((870 : Int) / rounded (24/10)) ∧
        rounded (rounded (95/100) + rounded (115/100)) ≤ rounded (24/10) * (9/10) ∧
        1 ≤ rounded (24/10) ∧ rounded (24/10) ≤ 3 := by decide +kernel
    obtain ⟨hlo, hlow, hfactor, hhi, hc⟩ := hends
    exact truncate_scaled hc (show (750 : Int) ≤ 870 by norm_num) ⟨hwidth.1, by omega⟩
      (hlo.trans hx₁) (hlow.trans (mul_le_mul_of_nonneg_right hx₁ hfactor)) (hx₂.trans hhi)
  · have hends : 0 ≤ rounded (rounded (-(55/100)) + rounded (105/100)) ∧
        72 ≤ rounded (rounded (-(55/100)) + rounded (105/100)) *
          rounded ((800 : Int) / rounded (21/10)) ∧ 0 ≤ rounded ((800 : Int) / rounded (21/10)) ∧
        rounded (rounded (55/100) + rounded (105/100)) ≤ rounded (21/10) * (9/10) ∧
        1 ≤ rounded (21/10) ∧ rounded (21/10) ≤ 3 := by decide +kernel
    obtain ⟨hlo, hlow, hfactor, hhi, hc⟩ := hends
    exact truncate_scaled hc (show (750 : Int) ≤ 800 by norm_num) r.tall (hlo.trans hy₁)
      (hlow.trans (mul_le_mul_of_nonneg_right hy₁ hfactor)) (hy₂.trans hhi)

theorem midpoint_inset {p q : Point} (hp : r.Inset p) (hq : r.Inset q) :
    r.Inset (midpoint p q) := by
  obtain ⟨⟨hp₁, hp₂⟩, hp₃, hp₄⟩ := hp
  obtain ⟨⟨hq₁, hq₂⟩, hq₃, hq₄⟩ := hq
  refine ⟨⟨?_, ?_⟩, ?_, ?_⟩ <;> simp only [midpoint] <;> omega

/-- A number on the way from one to another is between them, also in floats. -/
theorem rounded_between {a b m n : Int} (hm : 0 ≤ m) (hn : n ≤ 2 ^ 52) (ha : m ≤ a ∧ a ≤ n)
    (hb : m ≤ b ∧ b ≤ n) {t : ℚ} (h₀ : 0 ≤ t) (h₁ : t ≤ 1) :
    m ≤ truncate (rounded (a + rounded ((b - a) * t))) ∧
      truncate (rounded (a + rounded ((b - a) * t))) ≤ n := by
  have hlength : ∀ k : Int, -(2 ^ 52) ≤ k → k ≤ 2 ^ 52 → |k| ≤ 2 ^ 53 := fun k h h' => by
    rw [abs_le]
    omega
  -- the way made is between nothing and the whole way, whichever is more
  have hway : ((min 0 (b - a) : Int) : ℚ) ≤ (b - a) * t ∧
      (b - a) * t ≤ ((max 0 (b - a) : Int) : ℚ) := by
    push_cast
    rcases le_total (0 : ℚ) (b - a) with h | h
    · rw [min_eq_left h, max_eq_right h]
      exact ⟨mul_nonneg h h₀, mul_le_of_le_one_right h h₁⟩
    · rw [min_eq_right h, max_eq_left h]
      exact ⟨by nlinarith, mul_nonpos_of_nonpos_of_nonneg h h₀⟩
  have hlow := intCast_le_rounded (hlength _ (by omega) (by omega)) hway.1
  have hhigh := rounded_le_intCast (hlength _ (by omega) (by omega)) hway.2
  have hmin : (m : ℚ) ≤ a + ((min 0 (b - a) : Int) : ℚ) := by
    exact_mod_cast (by omega : m ≤ a + min 0 (b - a))
  have hmax : a + ((max 0 (b - a) : Int) : ℚ) ≤ n := by
    exact_mod_cast (by omega : a + max 0 (b - a) ≤ n)
  exact truncate_between hm
    (intCast_le_rounded (hlength _ (by omega) (by omega)) (by linarith))
    (rounded_le_intCast (hlength _ (by omega) hn) (by linarith))

theorem flightPoint_inset {p q : Point} (hp : r.Inset p) (hq : r.Inset q) {t : ℚ} (h₀ : 0 ≤ t)
    (h₁ : t ≤ 1) : r.Inset (flightPoint p q t) := by
  have hwidth := r.graphWidth_le.2
  have hwide := r.wide
  have htall := r.tall
  exact ⟨rounded_between (by norm_num) (by omega) hp.1 hq.1 h₀ h₁,
    rounded_between (by norm_num) (by omega) hp.2 hq.2 h₀ h₁⟩

/-! ### What is drawn of the graph -/

section Graph
variable {pos : Dict Int (ℚ × ℚ)} {nodes : List Int}

theorem place_total (h : Staged pos nodes) {node : Int} (hnode : node ∈ nodes) :
    ∃ p, r.place pos node = .ok p ∧ r.Inset p := by
  obtain ⟨p, hp, hstage⟩ := h node hnode
  exact ⟨_, by rw [place, getItem_eq_ok.mpr hp]; rfl, toScreen_inset hstage⟩

/-- A point around a place. -/
theorem Inset.around {p : Point} (h : r.Inset p) (dx dy : Int) (hx : |dx| < 72) (hy : |dy| < 72) :
    r.graphArea.Has (p.1 + dx, p.2 + dy) ∧ p.1 + dx < r.graphWidth ∧ p.2 + dy < r.height := by
  obtain ⟨⟨h₁, h₂⟩, h₃, h₄⟩ := h
  obtain ⟨hx₁, hx₂⟩ := abs_lt.mp hx
  obtain ⟨hy₁, hy₂⟩ := abs_lt.mp hy
  simp only [Area.Has, graphArea]
  omega

theorem Inset.text {p : Point} (h : r.Inset p) (font : Font) (label : String) (color : Color)
    (dx dy : Int) (hx : |dx| < 72) (hy : |dy| < 72) :
    (Command.text font label color (p.1 + dx, p.2 + dy)).Within r.graphArea :=
  h.around dx dy hx hy

theorem Inset.circle {p : Point} (h : r.Inset p) (color : Color) (radius width : ℕ)
    (hr : |(radius : Int)| < 72) : (Command.circle color p radius width).Within r.graphArea :=
  ⟨(h.around (-radius) (-radius) (by rwa [abs_neg]) (by rwa [abs_neg])).1,
    (h.around radius radius hr hr).1⟩

theorem Inset.line {p q : Point} (hp : r.Inset p) (hq : r.Inset q) (color : Color) (width : ℕ) :
    (Command.line color p q width).Within r.graphArea := by
  have hpoint : ∀ {x : Point}, r.Inset x → r.graphArea.Has x := fun hx => by
    simpa using (hx.around 0 0 (by norm_num) (by norm_num)).1
  exact ⟨hpoint hp, hpoint hq⟩

theorem Inset.cross {p : Point} (h : r.Inset p) (color : Color) :
    ∀ c ∈ drawCross p color, c.Within r.graphArea := by
  have hnine : |(9 : Int)| < 72 := by norm_num
  have hnine' : |(-9 : Int)| < 72 := by norm_num
  have hfirst : (Command.line color (p.1 - 9, p.2 - 9) (p.1 + 9, p.2 + 9) 3).Within r.graphArea :=
    ⟨(h.around (-9) (-9) hnine' hnine').1, (h.around 9 9 hnine hnine).1⟩
  have hsecond : (Command.line color (p.1 - 9, p.2 + 9) (p.1 + 9, p.2 - 9) 3).Within r.graphArea :=
    ⟨(h.around (-9) 9 hnine' hnine).1, (h.around 9 (-9) hnine hnine').1⟩
  simp [drawCross, hfirst, hsecond]

theorem drawEdge_total (h : Staged pos nodes) {edge : Int × Int × EdgeData}
    (ha : edge.1 ∈ nodes) (hb : edge.2.1 ∈ nodes) :
    ∃ cs, r.drawEdge pos edge = .ok cs ∧ ∀ c ∈ cs, c.Within r.graphArea := by
  obtain ⟨p, hp, hpin⟩ := place_total (r := r) h ha
  obtain ⟨q, hq, hqin⟩ := place_total (r := r) h hb
  refine ⟨_, by rw [drawEdge, hp, hq]; rfl, ?_⟩
  have htext := (midpoint_inset hpin hqin).text .small (toString edge.2.2.delayMs ++ " ms")
    (160, 173, 190) (-20) (-12) (by norm_num) (by norm_num)
  simpa using ⟨hpin.line hqin _ _, htext⟩

theorem drawDrop_total (h : Staged pos nodes) {ev : PacketEvent} (hev : ev.Fits nodes) :
    ∃ cs, r.drawDrop pos ev = .ok cs ∧ ∀ c ∈ cs, c.Within r.graphArea := by
  unfold drawDrop
  split
  · rename_i a b _ ha hb
    obtain ⟨p, hp, hpin⟩ := place_total (r := r) h (hev.startNode a ha)
    obtain ⟨q, hq, hqin⟩ := place_total (r := r) h (hev.endNode b hb)
    refine ⟨_, by rw [hp, hq]; rfl, fun c hc => ?_⟩
    have hmid := midpoint_inset hpin hqin
    rcases List.mem_append.mp hc with hc | hc
    · exact hmid.cross _ c hc
    · obtain rfl := List.mem_singleton.mp hc
      exact hmid.text _ _ _ (-28) (-26) (by norm_num) (by norm_num)
  · rename_i a _ ha _
    obtain ⟨p, hp, hpin⟩ := place_total (r := r) h (hev.startNode a ha)
    refine ⟨_, by rw [hp]; rfl, fun c hc => ?_⟩
    rcases List.mem_append.mp hc with hc | hc
    · exact hpin.cross _ c hc
    · obtain rfl := List.mem_singleton.mp hc
      exact hpin.text _ _ _ (-28) (-42) (by norm_num) (by norm_num)
  · exact ⟨[], rfl, by simp⟩

theorem drawDelivery_total (h : Staged pos nodes) {ev : PacketEvent} (hev : ev.Fits nodes) :
    ∃ cs, r.drawDelivery pos ev = .ok cs ∧ ∀ c ∈ cs, c.Within r.graphArea := by
  unfold drawDelivery
  split
  · rename_i v _ hv
    obtain ⟨p, hp, hpin⟩ := place_total (r := r) h (hev.node v hv)
    refine ⟨_, by rw [hp]; rfl, ?_⟩
    have hcircle := hpin.circle (100, 225, 150) (nodeRadius + 8) 3 (by decide)
    have htext := hpin.text .small ev.label (165, 235, 188) (-18) (-42) (by norm_num) (by norm_num)
    simpa using ⟨hcircle, htext⟩
  · exact ⟨[], rfl, by simp⟩

theorem drawNode_total (h : Staged pos nodes) (source destination : Int) {node : Int}
    (hnode : node ∈ nodes) :
    ∃ cs, r.drawNode pos source destination node = .ok cs ∧ ∀ c ∈ cs, c.Within r.graphArea := by
  obtain ⟨p, hp, hpin⟩ := place_total (r := r) h hnode
  refine ⟨_, by rw [drawNode, hp]; rfl, ?_⟩
  have hdisc := fun color width => hpin.circle color nodeRadius width (by decide)
  have htext := hpin.text .body ("R" ++ toString node) (12, 18, 24) (-14) (-10) (by norm_num)
    (by norm_num)
  simpa using ⟨hdisc _ 0, hdisc _ 2, htext⟩

theorem drawFlight_total (h : Staged pos nodes) {f : InFlightPacket} (ha : f.startNode ∈ nodes)
    (hb : f.endNode ∈ nodes) :
    ∃ cs, r.drawFlight pos f = .ok cs ∧ ∀ c ∈ cs, c.Within r.graphArea := by
  obtain ⟨p, hp, hpin⟩ := place_total (r := r) h ha
  obtain ⟨q, hq, hqin⟩ := place_total (r := r) h hb
  have hpoint := flightPoint_inset hpin hqin f.progressFloat_range.1 f.progressFloat_range.2
  refine ⟨_, by rw [drawFlight, hp, hq]; rfl, fun c hc => ?_⟩
  rcases List.mem_append.mp hc with hc | hc
  · rcases List.mem_cons.mp hc with rfl | hc
    · exact hpoint.circle _ 10 0 (by norm_num)
    · split at hc
      · obtain rfl := List.mem_singleton.mp hc
        exact hpoint.circle _ 13 2 (by norm_num)
      · cases hc
  · obtain rfl := List.mem_singleton.mp hc
    exact hpoint.text _ _ _ 12 (-8) (by norm_num) (by norm_num)

end Graph

/-- **The graph is drawn**, in its part of the window, whenever every node has its place on the
stage and the engine's flights and markers are at nodes. -/
theorem drawGraph_total {σ : Type} {a : App σ}
    (hstage : Staged a.pos a.engine.graphManager.graph.nodes)
    (hgood : a.engine.graphManager.Good) (hfit : a.engine.Fitting) :
    ∃ cs, r.drawGraph a = .ok cs ∧ ∀ c ∈ cs, c.Within r.graphArea := by
  obtain ⟨edges, hedges, hedges'⟩ := mapM_total (f := r.drawEdge a.pos)
    (P := fun cs => ∀ c ∈ cs, c.Within r.graphArea) (l := a.engine.graphManager.graph.edgesData)
    fun ⟨x, y, payload⟩ h => by
      obtain ⟨-, hlink⟩ := (SimpleGraph.mem_edgesData hgood.wf).mp h
      exact drawEdge_total hstage (hgood.wf.left_mem hlink) (hgood.wf.right_mem hlink)
  obtain ⟨drops, hdrops, hdrops'⟩ := mapM_total (f := r.drawDrop a.pos)
    (P := fun cs => ∀ c ∈ cs, c.Within r.graphArea) (l := a.engine.packetEvents)
    fun ev hev => drawDrop_total hstage (hfit.markers ev hev)
  obtain ⟨flights, hflights, hflights'⟩ := mapM_total (f := r.drawFlight a.pos)
    (P := fun cs => ∀ c ∈ cs, c.Within r.graphArea) (l := a.engine.inFlightPackets)
    fun f hf => by
      obtain ⟨d, hd, -⟩ := hfit.flights f hf
      have hends := hgood.wf.delay_mem (GraphManager.getEdgeDelay_eq_ok.mp hd)
      exact drawFlight_total hstage hends.1 hends.2
  obtain ⟨nodes, hnodes, hnodes'⟩ := mapM_total
    (f := r.drawNode a.pos a.engine.source a.engine.destination)
    (P := fun cs => ∀ c ∈ cs, c.Within r.graphArea) (l := a.engine.graphManager.graph.nodes)
    fun v hv => drawNode_total hstage _ _ hv
  obtain ⟨deliveries, hdeliveries, hdeliveries'⟩ := mapM_total (f := r.drawDelivery a.pos)
    (P := fun cs => ∀ c ∈ cs, c.Within r.graphArea) (l := a.engine.packetEvents)
    fun ev hev => drawDelivery_total hstage (hfit.markers ev hev)
  refine ⟨_, by
    simp only [drawGraph, hedges, hdrops, hflights, hnodes, hdeliveries, bind, Except.bind]; rfl,
    fun c hc => ?_⟩
  have hflat : ∀ {css : List (List Command)}, (∀ cs ∈ css, ∀ c ∈ cs, c.Within r.graphArea) →
      c ∈ css.flatten → c.Within r.graphArea := fun hcss hc => by
    obtain ⟨cs, hcs, hc⟩ := List.mem_flatten.mp hc
    exact hcss cs hcs c hc
  have hwide := r.graphWidth_le.1
  have htall := r.tall
  simp only [List.mem_append, List.mem_cons, List.not_mem_nil, or_false] at hc
  rcases hc with (((((rfl | hc) | hc) | hc) | hc) | hc) | rfl | rfl
  · simp only [Command.Within, Area.Has, graphArea]
    omega
  · exact hflat hedges' hc
  · exact hflat hdrops' hc
  · exact hflat hflights' hc
  · exact hflat hnodes' hc
  · exact hflat hdeliveries' hc
  · simp only [Command.Within, Area.Has, graphArea]
    omega
  · simp only [Command.Within, Area.Has, graphArea]
    omega

/-! ### The side panel -/

theorem mem_drawLines {font : Font} {color : Color} {y step : Int} {lines : List String}
    {c : Command} : c ∈ r.drawLines font color y step lines ↔ ∃ i, ∃ h : i < lines.length,
      c = .text font (lines.get ⟨i, h⟩) color (r.graphWidth + 24, y + i * step) := by
  rw [drawLines, List.mem_mapIdx]
  exact exists_congr fun i => exists_congr fun h => eq_comm

/-- A text of the side panel, at one of its three indents. -/
theorem text_within_panel {font : Font} {label : String} {color : Color} {dx y : Int}
    (hx : 0 ≤ dx ∧ dx < 400) (hy : 0 ≤ y) :
    (Command.text font label color (r.graphWidth + dx, y)).Within r.panelArea ↔ y < r.height := by
  have hwidth := r.graphWidth_le.2
  simp only [Command.Within, Area.Has, panelArea]
  omega

theorem length_getStatusLines {σ : Type} (e : Engine σ) : e.getStatusLines.length = 4 := rfl

theorem length_getStatLines {σ : Type} (e : Engine σ) : e.getStatLines.length = 7 := rfl

/-- **What fits in the side panel.**  In every state of the engine the panel's lines take the same
place; all of them are in the window if and only if it is more than 866 pixels high. -/
theorem drawSidePanel_within_iff {σ : Type} (r : Renderer) (e : Engine σ) :
    (∀ c ∈ r.drawSidePanel e, c.Within r.panelArea) ↔ 866 < r.height := by
  have hwidth := r.graphWidth_le
  have htall := r.tall
  constructor
  · intro h
    -- the last of the controls
    have hlast : (Command.text .small "R reset" (199, 208, 220) (r.graphWidth + 24, 866)) ∈
        r.drawSidePanel e := by
      refine List.mem_append_right _ (mem_drawLines.mpr ⟨9, by decide, ?_⟩)
      rw [length_getStatusLines, length_getStatLines]
      rfl
    exact (text_within_panel (by norm_num) (by norm_num)).mp (h _ hlast)
  · intro hheight c hc
    have htext : ∀ {font : Font} {label : String} {color : Color} {dx y : Int},
        0 ≤ dx ∧ dx < 400 → 0 ≤ y ∧ y ≤ 866 →
          (Command.text font label color (r.graphWidth + dx, y)).Within r.panelArea :=
      fun hdx hy => (text_within_panel hdx hy.1).mpr (by omega)
    have hlines : ∀ {font : Font} {color : Color} {y step : Int} {lines : List String},
        0 ≤ y → 22 ≤ step → y + lines.length * step ≤ 888 →
          c ∈ r.drawLines font color y step lines → c.Within r.panelArea := by
      intro font color y step lines hy hstep hend hc
      obtain ⟨i, hi, rfl⟩ := mem_drawLines.mp hc
      have hi' : (i + 1 : Int) ≤ lines.length := by exact_mod_cast hi
      have hle : (i + 1 : Int) * step ≤ lines.length * step :=
        mul_le_mul_of_nonneg_right hi' (by omega)
      have hi₀ : 0 ≤ (i : Int) * step := mul_nonneg (Int.natCast_nonneg i) (by omega)
      exact htext (by norm_num) ⟨by omega, by linarith⟩
    have hitems : legendItems.length = 6 := rfl
    have hstatus := length_getStatusLines e
    have hstats := length_getStatLines e
    have hcontrols : getControls.length = 10 := rfl
    simp only [drawSidePanel, hstatus, hstats, hitems, List.mem_append, List.mem_cons,
      List.not_mem_nil, or_false] at hc
    rcases hc with (((((((rfl | rfl | rfl) | hc) | rfl) | hc) | rfl) | hc) | rfl) | hc
    · simp only [Command.Within, Area.Has, panelArea]
      omega
    · simp only [Command.Within, Area.Has, panelArea]
      omega
    · exact htext (by norm_num) (by norm_num)
    · exact hlines (by norm_num) (by norm_num) (by rw [hstatus]; norm_num) hc
    · exact htext (by norm_num) (by norm_num)
    · exact hlines (by norm_num) (by norm_num) (by rw [hstats]; norm_num) hc
    · exact htext (by norm_num) (by norm_num)
    -- the legend: a dot and a text for each item
    · obtain ⟨cs, hcs, hc⟩ := List.mem_flatten.mp hc
      obtain ⟨i, hi, rfl⟩ := List.mem_mapIdx.mp hcs
      have hi' : (i : Int) < 6 := by exact_mod_cast hitems ▸ hi
      simp only [List.mem_cons, List.not_mem_nil, or_false] at hc
      rcases hc with rfl | rfl
      · simp only [Command.Within, Area.Has, panelArea]
        omega
      · exact htext (by norm_num) (by omega)
    · exact htext (by norm_num) (by norm_num)
    · exact hlines (by norm_num) (by norm_num) (by rw [hcontrols]; norm_num) hc

end Renderer

end PacketSim
