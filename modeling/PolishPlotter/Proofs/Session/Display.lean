import PolishPlotter.Proofs.Screen.Abandonment
import PolishPlotter.Proofs.Session.History
import PolishPlotter.Proofs.Session.Texts

set_option autoImplicit false

namespace PolishPlotter.Session

open Controls Machine Screen

variable {paint : Paint} {settings : Settings} {s : Session}

def activeCurve (s : Session) : Curve :=
  Sampler.screen.sample s.settings.stackLimit s.slots.current.instructions s.view s.vars

theorem curves_active (s : Session) : s.curves[s.slots.active]? = some s.activeCurve := by
  have current : s.slots.equations.toList[s.slots.active.val]? = some s.slots.current := by
    simp [Slots.current]
  change s.curves[s.slots.active.val]? = _
  rw [curves, scans, List.getElem?_map, List.getElem?_map, current]
  rfl

section Plot

def strokes (s : Session) (curves : List Curve) : List Stroke :=
  .axes s.view :: (curves.zip s.slots.equations.toList).map fun (curve, e) => .curve curve e.color

theorem plot_eq (s : Session) (size : TerminalSize) (curves : List Curve) :
    s.plot size curves = ((s.strokes curves).flatMap Stroke.dots).foldl Canvas.dot
      (.blank size.columns (max (size.lines - textLines) 4)) := by
  rw [← Canvas.foldl_draw, strokes, List.foldl_cons, List.foldl_map]
  rfl

theorem inked_plot (s : Session) (size : TerminalSize) (curves : List Curve) :
    (s.plot size curves).Inked := by
  rw [plot_eq]
  refine Canvas.inked_blank.foldl fun d member => ?_
  obtain ⟨stroke, -, inside⟩ := List.mem_flatMap.mp member
  exact Stroke.char_dots inside

def TerminalSize.Fits (size : TerminalSize) : Prop :=
  max size.columns 1 * max (size.lines - textLines) 4 < 2 ^ 64

theorem TerminalSize.fits_fallback : TerminalSize.fallback.Fits :=
  show 80 * 16 < 2 ^ 64 by decide

theorem size_plot (s : Session) (size : TerminalSize) (curves : List Curve) :
    (s.plot size curves).columns = max size.columns 1 ∧
      (s.plot size curves).rows = max (size.lines - textLines) 4 := by
  rw [plot_eq, Canvas.columns_foldl, Canvas.rows_foldl]
  exact ⟨rfl, Nat.max_eq_left (Nat.le_trans (by decide) (Nat.le_max_right _ 4))⟩

theorem grid_plot {size : TerminalSize} (fits : size.Fits) (s : Session) (curves : List Curve) :
    (s.plot size curves).Grid := by
  rw [plot_eq]
  refine (Canvas.grid_blank ?_).foldl _
  rwa [Nat.max_eq_left (Nat.le_trans (by decide) (Nat.le_max_right _ 4))]

theorem curve_of_error {e : Machine.Error} (failed : s.activeCurve.error = some e) (c : Canvas)
    (color : Color) : c.curve s.activeCurve color = c := by
  have empty : s.activeCurve.runs = [] :=
    runs_of_shape (shape_of_sample_error failed) Sampler.screen s.view s.vars
  rw [Canvas.curve, Curve.segments, empty]
  rfl

end Plot

section Lines

def slotText (s : Session) (k : Fin slotCount) : String :=
  (if k = s.slots.active then ">" else " ") ++ s!"Y{k.val + 1} = " ++ s.slotTranscript k

def errorText (e : Machine.Error) : String := "Error: " ++ e.message

def slidersText (s : Session) : String :=
  "  ".intercalate <| s.panel.sliders.map fun slider =>
    slider.var.name ++ "=" ++ Decimal.fixed 5 (slider.value s.vars) ++
      " [" ++ Decimal.plain slider.min ++ ", " ++ Decimal.plain slider.max ++ "]"

def viewText (v : Viewport Float) : String :=
  "x [" ++ Decimal.fixed 4 v.xmin ++ ", " ++ Decimal.fixed 4 v.xmax ++ "]  y [" ++
    Decimal.fixed 4 v.ymin ++ ", " ++ Decimal.fixed 4 v.ymax ++ "]"

def texts (s : Session) (paint : Paint) : List String :=
  (List.finRange slotCount).map
      (fun k => paint.colored (s.slots.equations.get k).color (s.slotText k)) ++
    s.activeCurve.error.toList.map (fun e => paint.bold (errorText e)) ++
    [s.slidersText, viewText s.view]

def captions (s : Session) : List String :=
  (List.finRange slotCount).map s.slotText ++ s.activeCurve.error.toList.map errorText ++
    [s.slidersText, viewText s.view]

theorem sliderLine_eq (s : Session) : s.sliderLine = s.slidersText ++ "\n" := rfl

theorem viewLine_eq (v : Viewport Float) : viewLine v = viewText v ++ "\n" := by
  have opened : "x" ++ " [" = "x [" := by decide
  have between : "]" ++ ("  " ++ ("y" ++ " [")) = "]  y [" := by decide
  rw [viewLine, rangeText, rangeText, viewText, ← opened, ← between]
  simp only [String.append_assoc]

theorem slotLine_eq (s : Session) (k : Fin slotCount) (e : Equation) :
    s.slotLine paint k e = paint.colored e.color (s.slotText k) ++ "\n" := by
  have label : Slots.label k ++ " = " = s!"Y{k.val + 1} = " := by
    revert k
    decide
  have marker : (if k.val = s.slots.active.val then ">" else " ") =
      if k = s.slots.active then ">" else " " := by
    simp only [Fin.ext_iff]
  rw [slotLine, slotText, marker, ← label]
  simp only [String.append_assoc]

theorem zipIdx_equations (slots : Slots) : slots.equations.toList.zipIdx =
    (List.finRange slotCount).map fun k => (slots.equations.get k, k.val) := by
  refine List.ext_getElem (by simp) fun i left right => ?_
  simp [Vector.get_eq_getElem]

theorem slotLines_eq (s : Session) :
    (s.slots.equations.toList.zipIdx.map fun (e, i) => s.slotLine paint i e) =
      (List.finRange slotCount).map fun k =>
        paint.colored (s.slots.equations.get k).color (s.slotText k) ++ "\n" := by
  rw [zipIdx_equations, List.map_map]
  exact List.map_congr_left fun k _ => s.slotLine_eq k _

theorem frame_eq (s : Session) (paint : Paint) (size : TerminalSize) : s.frame paint size =
    .join (((s.plot size s.curves).rowTexts paint ++ s.texts paint).map (· ++ "\n")) := by
  rw [frame, slotLines_eq, curves_active, Option.bind_some, Canvas.render_eq, sliderLine_eq,
    viewLine_eq, texts]
  cases s.activeCurve.error with
  | none => simp [Function.comp_def, String.append_assoc]
  | some e => simp [errorLine, errorText, Function.comp_def, String.append_assoc]

end Lines

section Texts

theorem plain_viewText (v : Viewport Float) : Plain (viewText v) := by
  have marks : Plain "x [" ∧ Plain ", " ∧ Plain "]  y [" ∧ Plain "]" := by simp [Plain]
  obtain ⟨x, comma, y, closed⟩ := marks
  have left := ((x.append (.fixed 4 v.xmin)).append comma).append (.fixed 4 v.xmax)
  exact ((((left.append y).append (.fixed 4 v.ymin)).append comma).append
    (.fixed 4 v.ymax)).append closed

theorem plain_errorText {e : Machine.Error} (failed : s.activeCurve.error = some e) :
    Plain (errorText e) := by
  have prefixed : Plain "Error: " := by simp [Plain]
  exact prefixed.append (plain_message (shape_structural (shape_of_sample_error failed)))

variable (reachable : Reachable settings s)

include reachable

theorem Reachable.slotTranscript_eq (k : Fin slotCount) :
    s.slotTranscript k =
      if k = s.slots.active ∧ s.keypad.inProgress then
        " ".intercalate ((s.slots.equations.get k).instructions.dropLast.map (·.text) ++
          [.ofList s.keypad.text])
      else Machine.transcript (s.slots.equations.get k).instructions := by
  have found : s.slots.get? k = some (s.slots.equations.get k) := by
    simp [Slots.get?, Vector.get_eq_getElem]
  by_cases active : k = s.slots.active
  · subst active
    have coherent := reachable.coherent
    rw [slotTranscript_active]
    unfold Coherent at coherent
    generalize typed : s.keypad = keypad at coherent ⊢
    generalize held : s.slots.current.instructions = instructions at coherent ⊢
    change _ = if _ then " ".intercalate (s.slots.current.instructions.dropLast.map _ ++ _)
      else Machine.transcript s.slots.current.instructions
    cases coherent with
    | idle =>
      rw [transcript, typed, held]
      simp [Equation.transcript, Keypad.entry?, Keypad.empty, held]
    | typing entry front =>
      rw [transcript_of_typing typed held, held]
      simp
  · have other : k.val ≠ s.slots.active.val := fun same => active (Fin.ext same)
    have idle : ¬ (k = s.slots.active ∧ s.keypad.inProgress = true) := fun both => active both.1
    rw [if_neg idle, slotTranscript, found]
    simp only [if_neg other]
    rfl

theorem Reachable.plain_instructions {e : Equation} {instructions : List Instruction}
    (member : e ∈ s.slots.equations) (inside : instructions ⊆ e.instructions) :
    ∀ text ∈ instructions.map (·.text), Plain text := by
  intro text given
  obtain ⟨i, held, rfl⟩ := List.mem_map.mp given
  exact plain_text reachable.wellFormed.names (reachable.wellFormed.bound e member i (inside held))

theorem Reachable.plain_slotTranscript (k : Fin slotCount) : Plain (s.slotTranscript k) := by
  have member : s.slots.equations.get k ∈ s.slots.equations := Vector.getElem_mem _
  have space : Plain " " := by simp [Plain]
  rw [reachable.slotTranscript_eq]
  split_ifs with typing
  · refine .intercalate space (List.forall_mem_append.mpr ⟨?_, List.forall_mem_singleton.mpr ?_⟩)
    · exact reachable.plain_instructions member (List.dropLast_subset _)
    · have coherent := reachable.coherent
      unfold Coherent at coherent
      generalize s.keypad = keypad at coherent typing ⊢
      generalize s.slots.current.instructions = instructions at coherent
      cases coherent with
      | idle => cases typing.2
      | typing entry front => exact .entry entry
  · exact .intercalate space (reachable.plain_instructions member (List.Subset.refl _))

theorem Reachable.plain_slidersText : Plain s.slidersText := by
  refine .intercalate (by simp [Plain]) fun text inside => ?_
  obtain ⟨slider, member, rfl⟩ := List.mem_map.mp inside
  have names : ∀ var ∈ Panel.handles, Plain var.name := by simp [Panel.handles, Plain]
  have name := names _ (reachable.wellFormed.handle_of_mem member)
  have value := Plain.fixed 5 (slider.value s.vars)
  have marks : Plain "=" ∧ Plain " [" ∧ Plain ", " ∧ Plain "]" := by simp [Plain]
  exact (((((((name.append marks.1).append value).append marks.2.1).append (.number _)).append
    marks.2.2.1).append (.number _)).append marks.2.2.2)

theorem Reachable.plain_slotText (k : Fin slotCount) : Plain (s.slotText k) := by
  have labels : ∀ k : Fin slotCount,
      s!"Y{k.val + 1} = " ∈ ["Y1 = ", "Y2 = ", "Y3 = ", "Y4 = "] := by decide
  have plain : ∀ label ∈ ["Y1 = ", "Y2 = ", "Y3 = ", "Y4 = "], Plain label := by simp [Plain]
  have marker : Plain (if k = s.slots.active then ">" else " ") := by
    split_ifs <;> simp [Plain]
  exact (marker.append (plain _ (labels k))).append (reachable.plain_slotTranscript k)

theorem Reachable.line_texts (wraps : paint.Wraps) {text : String} (member : text ∈ s.texts paint) :
    ∃ seen, Line text.toList seen := by
  simp only [texts, List.mem_append, List.mem_map, List.mem_cons, List.not_mem_nil, or_false,
    Option.mem_toList] at member
  obtain (⟨k, -, rfl⟩ | ⟨e, failed, rfl⟩) | rfl | rfl := member
  · exact ⟨_, .of_wrapped (wraps.colored _ _) (reachable.plain_slotText k)⟩
  · exact ⟨_, .of_wrapped (wraps.bold _) (plain_errorText failed)⟩
  · exact ⟨_, .of_plain reachable.plain_slidersText⟩
  · exact ⟨_, .of_plain (plain_viewText s.view)⟩

theorem Reachable.visible_texts (wraps : paint.Wraps) : (s.texts paint).map visible = s.captions := by
  have slots : (List.finRange slotCount).map
      (fun k => visible (paint.colored (s.slots.equations.get k).color (s.slotText k))) =
        (List.finRange slotCount).map s.slotText := by
    refine List.map_congr_left fun k _ => ?_
    rw [(Line.of_wrapped (wraps.colored _ _) (reachable.plain_slotText k)).visible_eq,
      String.ofList_toList]
  have errors : s.activeCurve.error.toList.map (fun e => visible (paint.bold (errorText e))) =
      s.activeCurve.error.toList.map errorText := by
    refine List.map_congr_left fun e failed => ?_
    rw [(Line.of_wrapped (wraps.bold _) (plain_errorText (Option.mem_toList.mp failed))).visible_eq,
      String.ofList_toList]
  have sliders : visible s.slidersText = s.slidersText := by
    rw [(Line.of_plain reachable.plain_slidersText).visible_eq, String.ofList_toList]
  have view : visible (viewText s.view) = viewText s.view := by
    rw [(Line.of_plain (plain_viewText s.view)).visible_eq, String.ofList_toList]
  simp only [texts, captions, List.map_append, List.map_map, List.map_cons, List.map_nil,
    Function.comp_def, slots, errors, sliders, view]

end Texts

def Shows (s : Session) (size : TerminalSize) (text : String) : Prop :=
  ∃ lines : List String,
    text = .join (lines.map (· ++ "\n")) ∧ (∀ line ∈ lines, '\n' ∉ line.toList) ∧
    visible text = .join (lines.map fun line => visible line ++ "\n") ∧
    lines.map visible = (s.plot size s.curves).lines.map .ofList ++ s.captions

theorem Reachable.shows_frame (reachable : Reachable settings s) (wraps : paint.Wraps)
    {size : TerminalSize} (fits : size.Fits) : s.Shows size (s.frame paint size) := by
  have grid := grid_plot fits s s.curves
  have inked := s.inked_plot size s.curves
  have all : ∀ line ∈ (s.plot size s.curves).rowTexts paint ++ s.texts paint,
      ∃ seen, Line line.toList seen := by
    intro line member
    cases List.mem_append.mp member with
    | inl drawn => exact grid.line_rowTexts wraps inked drawn
    | inr below => exact reachable.line_texts wraps below
  refine ⟨_, s.frame_eq paint size, fun line member => ?_, ?_, ?_⟩
  · obtain ⟨seen, one⟩ := all line member
    exact one.whole
  · rw [frame_eq, visible_join all]
  · rw [List.map_append, grid.visible_rowTexts wraps inked, reachable.visible_texts wraps]

/-- After any run, the frame on the fallback terminal is 22 lines, or 23 when the curve of the active
slot has an error. Without its escape sequences it shows the plot, which is 16 lines of 80 characters,
then each slot, the error, the sliders and the view. A number being typed is shown in the active slot
only. The curve of an active slot with an error leaves no mark. -/
theorem frame_shows_session {paint : Paint} (wraps : paint.Wraps) (settings : Settings)
    (inputs : List Input) :
    let s := (new settings).run inputs
    let curve := Sampler.screen.sample s.settings.stackLimit s.slots.current.instructions s.view s.vars
    ∃ lines plotted : List String,
      s.frame paint .fallback = .join (lines.map (· ++ "\n")) ∧
      (∀ line ∈ lines, '\n' ∉ line.toList) ∧
      lines.length = (if curve.error.isSome then 23 else 22) ∧
      visible (s.frame paint .fallback) = .join (lines.map fun line => visible line ++ "\n") ∧
      lines.map visible =
        plotted ++
        (List.finRange slotCount).map (fun k =>
          (if k = s.slots.active then ">" else " ") ++ s!"Y{k.val + 1} = " ++ s.slotTranscript k) ++
        curve.error.toList.map (fun e => "Error: " ++ e.message) ++
        ["  ".intercalate (s.panel.sliders.map fun slider =>
            slider.var.name ++ "=" ++ Decimal.fixed 5 (slider.value s.vars) ++
              " [" ++ Decimal.plain slider.min ++ ", " ++ Decimal.plain slider.max ++ "]"),
          "x [" ++ Decimal.fixed 4 s.view.xmin ++ ", " ++ Decimal.fixed 4 s.view.xmax ++ "]  y [" ++
            Decimal.fixed 4 s.view.ymin ++ ", " ++ Decimal.fixed 4 s.view.ymax ++ "]"] ∧
      s.panel.sliders.map (·.var.name) = ["a", "b", "c", "d"] ∧
      plotted = (s.plot .fallback s.curves).lines.map .ofList ∧
      plotted.length = 16 ∧ (∀ line ∈ plotted, line.toList.length = 80) ∧
      (∀ k : Fin slotCount, s.slotTranscript k =
        if k = s.slots.active ∧ s.keypad.inProgress then
          " ".intercalate ((s.slots.equations.get k).instructions.dropLast.map (·.text) ++
            [.ofList s.keypad.text])
        else Machine.transcript (s.slots.equations.get k).instructions) ∧
      s.curves[s.slots.active]? = some curve ∧
      ∀ e, curve.error = some e → ∀ (c : Canvas) (color : Color), c.curve curve color = c := by
  intro s curve
  have reachable : Reachable settings s := Reachable.new.run inputs
  obtain ⟨columns, rows⟩ := s.size_plot .fallback s.curves
  have height : (s.plot .fallback s.curves).lines.length = 16 := by
    rw [Canvas.lines, List.length_map, List.length_range, rows]
    rfl
  obtain ⟨lines, text, whole, seen, each⟩ :=
    reachable.shows_frame wraps TerminalSize.fits_fallback
  have names : s.panel.sliders.map (·.var.name) = ["a", "b", "c", "d"] := by
    have handles := congrArg (List.map (·.name)) reachable.wellFormed.sliders
    rwa [List.map_map] at handles
  refine ⟨lines, _, text, whole, ?_, seen, each.trans ?_, names, rfl, ?_, ?_,
    reachable.slotTranscript_eq, s.curves_active, fun e failed => curve_of_error failed⟩
  · have count := congrArg List.length each
    rw [List.length_map, List.length_append, List.length_map, height] at count
    rw [count, captions]
    change _ = if s.activeCurve.error.isSome then 23 else 22
    cases s.activeCurve.error <;> simp [slotCount]
  · simp only [captions, List.append_assoc]
    rfl
  · rw [List.length_map, height]
  · intro line member
    obtain ⟨row, inside, rfl⟩ := List.mem_map.mp member
    rw [String.toList_ofList, ((s.inked_plot .fallback s.curves).mem_lines inside).1, columns]
    rfl

-- The number that is typed does not help the operator before it.
@[irreducible]
def starved : Session := (new .default).run [.line "down + 2"]

theorem starved_frame_shows_error :
    ∃ lines plotted : List String,
      starved.frame .ansi .fallback = .join (lines.map (· ++ "\n")) ∧ plotted.length = 16 ∧
      lines.map visible = plotted ++
        [" Y1 = x sin", ">Y2 = + 2", " Y3 = ", " Y4 = ", "Error: STACK UNDERFLOW",
          "a=0.50000 [0, 1]  b=0.50000 [0, 1]  c=0.50000 [0, 1]  d=0.50000 [0, 1]",
          "x [-5.0000, 5.0000]  y [-3.0000, 3.0000]"] := by
  obtain ⟨lines, plotted, text, -, -, -, seen, -, -, count, -, -, -, -⟩ :=
    frame_shows_session Paint.ansi_wraps .default [.line "down + 2"]
  have entered : (new .default).run [.line "down + 2"] =
      ((new .default).enterWords 0 ["down", "+", "2"]).session :=
    congrArg Reply.session (enter_eq _ _)
  refine ⟨lines, plotted, ?_, count, ?_⟩
  · rw [starved]
    exact text
  · rw [seen, entered, List.append_assoc, List.append_assoc, List.append_cancel_left_eq]
    decide +kernel

end PolishPlotter.Session
