import FleetOS.ServerOutput

/-!
# Stepping through a simulation

In interactive mode the loop takes commands between its ticks. They decide how far it goes, and
nothing else : without the answers to `status` it prints what the loop without this mode prints, up
to the tick at which it is told to quit (`stepped_transparent`).
-/

namespace FleetOS

open Json Printing TwoRuns

/-! ## Answers and lines -/

/-- A line of the log, and not an answer. -/
def Record.isLine : Record → Bool
  | .line _ _ _ _ => true
  | .status _ => false

/-- The records without the answers. -/
def unanswered (records : List (ℤ × Record)) : List (ℤ × Record) := records.filter fun r => r.2.isLine

/-- The records of the ticks before this one. -/
def before (tick : ℤ) (records : List (ℤ × Record)) : List (ℤ × Record) :=
  records.filter fun r => r.1 < tick

section records

variable {tick : ℤ} {records records' : List (ℤ × Record)}

theorem unanswered_append : unanswered (records ++ records') = unanswered records ++ unanswered records' :=
  List.filter_append ..

theorem before_append : before tick (records ++ records') = before tick records ++ before tick records' :=
  List.filter_append ..

theorem before_eq_self (h : ∀ r ∈ records, r.1 < tick) : before tick records = records :=
  List.filter_eq_self.mpr fun r hr => decide_eq_true (h r hr)

theorem before_eq_nil (h : ∀ r ∈ records, tick ≤ r.1) : before tick records = [] :=
  List.filter_eq_nil_iff.mpr fun r hr => by simpa using h r hr

theorem Lines.unanswered : ∀ {lines : List CString}, Lines tick lines →
    ∃ records, lines = records.map recordText ∧ unanswered records = records ∧ ∀ r ∈ records, r.1 = tick
  | [], _ => ⟨[], rfl, rfl, fun _ h => absurd h List.not_mem_nil⟩
  | l :: lines, h => by
    obtain ⟨hl, hlines⟩ := List.forall_mem_cons.mp h
    obtain ⟨module, level, msg, data, rfl⟩ := hl
    obtain ⟨records, rfl, hrecords, htick⟩ := Lines.unanswered hlines
    refine ⟨(tick, .line module level msg data) :: records, rfl, ?_, List.forall_mem_cons.mpr ⟨rfl, htick⟩⟩
    rw [FleetOS.unanswered, List.filter_cons_of_pos rfl]
    exact congrArg _ hrecords

theorem unanswered_answers : ∀ {lines : List CString},
    (∀ l ∈ lines, ∃ paused, l = recordText (tick, .status paused)) →
      ∃ records, lines = records.map recordText ∧ unanswered records = []
  | [], _ => ⟨[], rfl, rfl⟩
  | l :: lines, h => by
    obtain ⟨hl, hlines⟩ := List.forall_mem_cons.mp h
    obtain ⟨paused, rfl⟩ := hl
    obtain ⟨records, rfl, hrecords⟩ := unanswered_answers hlines
    exact ⟨(tick, .status paused) :: records, rfl, hrecords⟩

end records

/-! ## The two loops -/

section loops

variable {interact interact' : ℤ → Controls → Controls × List CString} {x y : Statics × Phase}

/-- The variables with which a tick begins. -/
def Statics.commanded (interact : ℤ → Controls → Controls × List CString) (s : Statics) : Controls :=
  if s.interactive then (interact s.kernel.currentTick s.controls).1 else s.controls

theorem loopStep_commanded (interact : ℤ → Controls → Controls × List CString) {s : Statics}
    (hrun : s.controls.running = true) (hup : s.kernel.timeUp = false) :
    loopStep interact (s, .top) =
      if (s.commanded interact).running then
        ({ s with
          kernel := (machineStep (s.kernel, .top)).1
          controls := s.commanded interact
          clocks := ⟨s.kernel.currentTick, s.kernel.currentTick⟩ }, (machineStep (s.kernel, .top)).2)
      else ({ s with controls := s.commanded interact }, .halted) := by
  cases hc : (s.commanded interact).running <;>
  · simp only [Statics.commanded] at hc ⊢
    simp [loopStep, hrun, hup, hc]

/-- The loop of `x` is where the loop of `y` is, which takes no commands. -/
structure Abreast (x y : Statics × Phase) : Prop where
  kernel : x.1.kernel = y.1.kernel
  clocks : x.1.clocks = y.1.clocks
  phase : x.2 = y.2
  running : x.1.controls.running = true
  unattended : y.1.Unattended

/-- The loop has been told to quit. -/
structure Quit (x : Statics × Phase) : Prop where
  phase : x.2 = .halted
  running : x.1.controls.running = false

/-- At the top of the loop it is told to quit, before anything is printed. -/
structure QuitsAt (interact interact' : ℤ → Controls → Controls × List CString) (x y : Statics × Phase) :
    Prop where
  quit : Quit (loopStep interact x)
  phase : x.2 = .top
  kernel : (loopStep interact x).1.kernel = x.1.kernel
  silent : loopLog interact' y = []

theorem Abreast.loopStep (interact interact' : ℤ → Controls → Controls × List CString) (h : Abreast x y) :
    Abreast (loopStep interact x) (loopStep interact' y) ∨ QuitsAt interact interact' x y := by
  have hu : (FleetOS.loopStep interact' y).1.Unattended := h.unattended.loopStep
  by_cases htop : x.2 = .top
  · obtain ⟨s, ph⟩ := x
    obtain ⟨s', ph'⟩ := y
    obtain rfl : ph = .top := htop
    obtain rfl : Phase.top = ph' := h.phase
    have hk : s.kernel = s'.kernel := h.kernel
    have hrun : s.controls.running = true := h.running
    have hni : s'.interactive = false := h.unattended.interactive
    have hy : loopStep interact' (s', .top) = _ := loopStep_top h.unattended
    rw [← hk] at hy
    cases hup : s.kernel.timeUp with
    | true =>
      have hx : FleetOS.loopStep interact (s, .top) = (s, .halted) := by simp [FleetOS.loopStep, hup]
      rw [hy, hx, hup]
      exact Or.inl ⟨hk, h.clocks, rfl, hrun, h.unattended⟩
    | false =>
      have hsilent : loopLog interact' (s', .top) = [] := by
        simp [loopLog, ← hk, hup, hni]
      rw [hy, hup]
      rw [hy, hup] at hu
      cases hgo : (s.commanded interact).running with
      | true =>
        have hx := (loopStep_commanded interact hrun hup).trans (if_pos hgo)
        rw [hx]
        exact Or.inl ⟨rfl, rfl, rfl, hgo, hu⟩
      | false =>
        have hx := (loopStep_commanded interact hrun hup).trans (if_neg (by simp [hgo]))
        refine Or.inr ⟨?_, rfl, ?_, hsilent⟩ <;> rw [hx]
        exact ⟨rfl, hgo⟩
  · have hy : y.2 ≠ .top := h.phase ▸ htop
    have hm : machineOf x = machineOf y := Prod.ext h.kernel h.phase
    rw [loopStep_of_ne interact' hy] at hu ⊢
    rw [loopStep_of_ne interact htop, hm]
    exact Or.inl ⟨rfl, h.clocks, rfl, h.running, hu⟩

/-- What the two loops print in one round. -/
theorem Abreast.loopLog (h : Abreast x y) {tick : ℤ} (hquiet : Lines tick (loopLog interact' y))
    (hinteract : x.1.interactive = true → Attended interact) :
    ∃ out out₀, FleetOS.loopLog interact x = out.map recordText ∧
      FleetOS.loopLog interact' y = out₀.map recordText ∧ unanswered out = out₀ ∧ ∀ r ∈ out₀, r.1 = tick := by
  obtain ⟨out₀, hout₀, hself, htick⟩ := hquiet.unanswered
  by_cases hsame : FleetOS.loopLog interact x = FleetOS.loopLog interact' y
  · exact ⟨out₀, out₀, hsame.trans hout₀, hout₀, hself, htick⟩
  obtain ⟨s, ph⟩ := x
  obtain ⟨s', ph'⟩ := y
  obtain rfl : ph = ph' := h.phase
  have hk : s.kernel = s'.kernel := h.kernel
  have hclocks : s.clocks = s'.clocks := h.clocks
  cases ph with
  | top =>
    have hrun : s.controls.running = true := h.running
    have hrun' : s'.controls.running = true := h.unattended.running
    have hni : s'.interactive = false := h.unattended.interactive
    have hup : s'.kernel.timeUp = false := by
      refine Bool.eq_false_of_not_eq_true fun hup => ?_
      simp [FleetOS.loopLog, hrun, hrun', hk, hclocks, hup] at hsame
    have hi : s.interactive = true := by
      by_contra hi
      simp [FleetOS.loopLog, hni, hk, hup, hi] at hsame
    -- only answers are printed here, and nothing without the interactive mode
    have hanswers := (hinteract hi).answers s.kernel.currentTick s.controls
    obtain ⟨out, hout, hnone⟩ := unanswered_answers hanswers
    refine ⟨out, [], ?_, ?_, hnone, fun _ h => absurd h List.not_mem_nil⟩
    · simp [FleetOS.loopLog, hrun, hk ▸ hup, hi, hout]
    · simp [FleetOS.loopLog, hup, hni]
  | _ => exact absurd (by simp only [FleetOS.loopLog, hk, hclocks]) hsame

theorem Quit.loopLog (h : Quit x) : FleetOS.loopLog interact x = [] := by
  obtain ⟨s, ph⟩ := x
  obtain rfl : ph = .halted := h.phase
  rfl

theorem Quit.loopStep (h : Quit x) : FleetOS.loopStep interact x = x := by
  obtain ⟨s, ph⟩ := x
  obtain rfl : ph = .halted := h.phase
  rfl

/-- A new tick begins only after the one before it. -/
theorem currentTick_lt_of_top {m : Kernel × Phase} (h : (machineStep m).2 = .top) :
    m.1.currentTick < (machineStep m).1.currentTick := by
  obtain ⟨k, ph⟩ := m
  cases ph with
  | finish =>
    simp only [machineStep] at h ⊢
    split_ifs at h ⊢
    exact Int.lt_add_one_iff.mpr le_rfl
  | top =>
    simp only [machineStep] at h
    split_ifs at h
  | execute =>
    simp only [machineStep] at h
    split at h <;> cases h
  | _ => cases h

theorem currentTick_lt_loopStep (h : (loopStep interact x).2 = .top) :
    x.1.kernel.currentTick < (loopStep interact x).1.kernel.currentTick := by
  by_cases htop : x.2 = .top
  · obtain ⟨s, ph⟩ := x
    obtain rfl : ph = .top := htop
    rcases loopStep_top_cases interact s with ⟨c, he⟩ | ⟨c, he⟩ <;> rw [he] at h ⊢
    · cases h
    · exact currentTick_lt_of_top (m := (s.kernel, .top)) h
  · rw [loopStep_of_ne interact htop] at h ⊢
    exact currentTick_lt_of_top h

end loops

/-! ## The two runs -/

section runs

variable {k₀ : Kernel} {cfg : KernelConfig} {w : List ProcessSpec} {x y : Statics × Phase}
  {out out₀ : List (ℤ × Record)}

/-- What the two loops have printed so far. -/
structure Alongside (k : Kernel) (x y : Statics × Phase) (out out₀ : List (ℤ × Record)) : Prop where
  tick_le : ∀ r ∈ out₀, r.1 ≤ y.1.kernel.currentTick
  tick_lt : y.2 = .top → ∀ r ∈ out₀, r.1 < y.1.kernel.currentTick
  printed : Abreast x y ∧ unanswered out = out₀ ∨
    Quit x ∧ (∃ j, machineRun k j = (x.1.kernel, .top)) ∧
      x.1.kernel.currentTick ≤ y.1.kernel.currentTick ∧ unanswered out = before x.1.kernel.currentTick out₀

theorem Alongside.loopStep (interact interact' : ℤ → Controls → Controls × List CString)
    (hw : ValidWorkload w) (hm : Moderate w) (hnames : ∀ p ∈ w, Plain p.name) (hpos : 0 < cfg.maxTicks)
    (hlast : cfg.maxTicks ≤ lastTick) {i : ℕ} (hf : Follows k₀ cfg w i y)
    (hquiet : y.1.interactive = false) (hinteract : x.1.interactive = true → Attended interact)
    (h : Alongside (kernelInit k₀ cfg w) x y out out₀) :
    ∃ more more₀, FleetOS.loopLog interact x = more.map recordText ∧
      FleetOS.loopLog interact' y = more₀.map recordText ∧
      Alongside (kernelInit k₀ cfg w) (FleetOS.loopStep interact x) (FleetOS.loopStep interact' y)
        (out ++ more) (out₀ ++ more₀) := by
  have hlines := hf.lines interact' hw hm hnames hpos hlast fun _ => hquiet
  have hle := hf.currentTick_le interact' hw
  have hticks : ∀ {more₀ : List (ℤ × Record)}, (∀ r ∈ more₀, r.1 = y.1.kernel.currentTick) →
      (∀ r ∈ out₀ ++ more₀, r.1 ≤ (FleetOS.loopStep interact' y).1.kernel.currentTick) ∧
      ((FleetOS.loopStep interact' y).2 = .top →
        ∀ r ∈ out₀ ++ more₀, r.1 < (FleetOS.loopStep interact' y).1.kernel.currentTick) := by
    intro more₀ htick
    have hall : ∀ r ∈ out₀ ++ more₀, r.1 ≤ y.1.kernel.currentTick :=
      List.forall_mem_append.mpr ⟨h.tick_le, fun r hr => (htick r hr).le⟩
    exact ⟨fun r hr => (hall r hr).trans hle, fun htop r hr =>
      (hall r hr).trans_lt (currentTick_lt_loopStep htop)⟩
  rcases h.printed with ⟨habreast, hout⟩ | ⟨hquit, hrun, hbelow, hout⟩
  · obtain ⟨more, more₀, hmore, hmore₀, hself, htick⟩ := habreast.loopLog hlines hinteract
    refine ⟨more, more₀, hmore, hmore₀, (hticks htick).1, (hticks htick).2, ?_⟩
    rw [unanswered_append, hout, hself]
    rcases habreast.loopStep interact interact' with hnext | hquits
    · exact Or.inl ⟨hnext, rfl⟩
    · have htop : y.2 = .top := habreast.phase ▸ hquits.phase
      have hat : machineOf y = (x.1.kernel, .top) := Prod.ext habreast.kernel.symm htop
      have hnone : more₀ = [] := List.map_eq_nil_iff.mp (hmore₀.symm.trans hquits.silent)
      rw [hnone, List.append_nil]
      refine Or.inr ⟨hquits.quit, ⟨i, ?_⟩, ?_, ?_⟩ <;> rw [hquits.kernel]
      · rw [← hat]
        exact (hf.phase (by simp [htop])).symm
      · rw [habreast.kernel]
        exact hle
      · rw [habreast.kernel, before_eq_self (h.tick_lt htop)]
  · obtain ⟨more₀, hmore₀, -, htick⟩ := hlines.unanswered
    refine ⟨[], more₀, hquit.loopLog, hmore₀, (hticks htick).1, (hticks htick).2, ?_⟩
    rw [hquit.loopStep, List.append_nil]
    refine Or.inr ⟨hquit, hrun, hbelow.trans hle, ?_⟩
    rw [before_append, before_eq_nil fun r hr => hbelow.trans (htick r hr).ge, List.append_nil]
    exact hout

end runs

/-! ## Simulations -/

section simulations

variable (interact : ℤ → Controls → Controls × List CString) (s : Statics) (cfg : LaunchConfig)
  {w : List ProcessSpec}

theorem alongside_iterate (hw : ValidWorkload w) (hm : Moderate w) (hnames : ∀ p ∈ w, Plain p.name)
    (hpos : 0 < cfg.maxTicks) (hlast : cfg.maxTicks ≤ lastTick)
    (hinteract : cfg.interactive = true → Attended interact) (n : ℕ) :
    ∃ out out₀,
      runOut (loopStep interact) (loopLog interact) n (initStatics s cfg w, .top) = out.map recordText ∧
      runOut (loopStep interact) (loopLog interact) n
        (initStatics s { cfg with interactive := false } w, .top) = out₀.map recordText ∧
      Alongside (kernelInit s.kernel cfg.toKernelConfig w)
        ((loopStep interact)^[n] (initStatics s cfg w, .top))
        ((loopStep interact)^[n] (initStatics s { cfg with interactive := false } w, .top)) out out₀ := by
  induction n with
  | zero =>
    have habreast : Abreast (initStatics s cfg w, .top)
        (initStatics s { cfg with interactive := false } w, .top) := ⟨rfl, rfl, rfl, rfl, ⟨rfl, rfl⟩⟩
    exact ⟨[], [], rfl, rfl, fun _ h => absurd h List.not_mem_nil,
      fun _ _ h => absurd h List.not_mem_nil, Or.inl ⟨habreast, rfl⟩⟩
  | succ n ih =>
    obtain ⟨out, out₀, hout, hout₀, h⟩ := ih
    have hf := follows_iterate interact s { cfg with interactive := false } hw n
    have hquiet := interactive_iterate interact (w := w) s { cfg with interactive := false } n
    have hattended : ((loopStep interact)^[n] (initStatics s cfg w, .top)).1.interactive = true →
        Attended interact := fun hi => hinteract ((interactive_iterate interact s cfg n).symm.trans hi)
    obtain ⟨more, more₀, hmore, hmore₀, hnext⟩ := h.loopStep interact interact
      hw hm hnames hpos hlast hf hquiet hattended
    refine ⟨out ++ more, out₀ ++ more₀, ?_, ?_, ?_⟩
    · rw [runOut_succ, hout, hmore, List.map_append]
    · rw [runOut_succ, hout₀, hmore₀, List.map_append]
    · rw [Function.iterate_succ_apply', Function.iterate_succ_apply']
      exact hnext

/-- Stepped to its end a simulation prints, besides the answers, what it prints without the interactive
mode, and leaves the same. Told to quit before, it has printed what belongs to the ticks that it has
run, and has stopped between two ticks. -/
theorem stepped_transparent (hw : ValidWorkload w) (hm : Moderate w) (hnames : ∀ p ∈ w, Plain p.name)
    (hpos : 0 < cfg.maxTicks) (hlast : cfg.maxTicks ≤ lastTick)
    (hinteract : cfg.interactive = true → Attended interact) :
    ∃ r r₀ out out₀, simulate interact s cfg w = some r ∧
      simulate interact s { cfg with interactive := false } w = some r₀ ∧
      r.lines = kernelInitLog s.kernel cfg w ++ out.map recordText ∧
      r₀.lines = kernelInitLog s.kernel { cfg with interactive := false } w ++ out₀.map recordText ∧
      (r.statics.controls.running = true → unanswered out = out₀ ∧
        r.statics.kernel = r₀.statics.kernel ∧ r.metrics = r₀.metrics) ∧
      (r.statics.controls.running = false →
        unanswered out = before r.statics.kernel.currentTick out₀ ∧
        ∃ j, machineRun (kernelInit s.kernel cfg.toKernelConfig w) j = (r.statics.kernel, .top)) := by
  obtain ⟨out, out₀, hout, hout₀, h⟩ :=
    alongside_iterate interact s cfg hw hm hnames hpos hlast hinteract (initStatics s cfg w).parts
  have hhalt := halted_simulation interact s cfg hw hpos
  have hhalt₀ := halted_simulation interact s { cfg with interactive := false } hw hpos
  refine ⟨_, _, out, out₀, congrArg _ (kernelRun_of_halted hhalt), congrArg _ (kernelRun_of_halted hhalt₀),
    congrArg _ hout, congrArg _ hout₀, ?_⟩
  rcases h.printed with ⟨habreast, hsame⟩ | ⟨hquit, hrun, -, hsame⟩
  · refine ⟨fun _ => ⟨hsame, habreast.kernel, congrArg kernelGetMetrics habreast.kernel⟩, fun hstop => ?_⟩
    exact absurd (hstop.symm.trans habreast.running) (by decide)
  · exact ⟨fun hon => absurd (hon.symm.trans hquit.running) (by decide), fun _ => ⟨hsame, hrun⟩⟩

theorem stepped_transparent_drones : ∃ r r₀ out out₀,
    simulate stepper ⟨.zero, false, false, ⟨false, false, 0⟩, ⟨0, 0⟩⟩
        ⟨⟨.mlfq, 100, true, true⟩, false, true⟩ droneWorkload = some r ∧
      simulate stepper ⟨.zero, false, false, ⟨false, false, 0⟩, ⟨0, 0⟩⟩
        ⟨⟨.mlfq, 100, true, true⟩, false, false⟩ droneWorkload = some r₀ ∧
      r.lines = kernelInitLog .zero ⟨⟨.mlfq, 100, true, true⟩, false, true⟩ droneWorkload ++
        out.map recordText ∧
      r₀.lines = kernelInitLog .zero ⟨⟨.mlfq, 100, true, true⟩, false, false⟩ droneWorkload ++
        out₀.map recordText ∧
      (r.statics.controls.running = true → unanswered out = out₀) := by
  obtain ⟨r, r₀, out, out₀, hr, hr₀, hlines, hlines₀, hon, -⟩ :=
    stepped_transparent stepper ⟨.zero, false, false, ⟨false, false, 0⟩, ⟨0, 0⟩⟩
      ⟨⟨.mlfq, 100, true, true⟩, false, true⟩ valid_droneWorkload moderate_droneWorkload (by decide)
      (by decide) (by decide) fun _ => attended_stepper
  exact ⟨r, r₀, out, out₀, hr, hr₀, hlines, hlines₀, fun h => (hon h).1⟩

end simulations

end FleetOS
