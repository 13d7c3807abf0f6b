import FleetOS.Interactive
import FleetOS.LoggedRuns
import FleetOS.RunIndependence

/-!
# What the server reads

`drone_fleet_os` writes records to its output, one JSON object a line, and `_read_output` of
`server.py` reads them back and passes them on. Whatever comes in over `stdin`, the records of a
simulation are in the order of their ticks, and each of them is passed on as it was written
(`readOutput_mainOutput`).
-/

namespace FleetOS

open Json Printing TwoRuns

/-! ## Records -/

/-- A line of the log, or the answer to `status`. -/
inductive Record
  | line (module : Text) (level : LogLevel) (msg : Text) (data : Option Value)
  | status (paused : Bool)

def Record.value (tick : ℤ) : Record → Value
  | .line module level msg data => lineValue tick module level msg data
  | .status paused => .obj [(key "tick" plain_tick, .int tick), (key "paused" (by decide), .bool paused)]

/-- The text of a record, with its line break. -/
def recordText (r : ℤ × Record) : CString := render (r.2.value r.1) ++ ['\n']

/-- Records in the order of their ticks, from `low` to `high`. -/
structure InOrder (low high : ℤ) (records : List (ℤ × Record)) : Prop where
  pairwise : records.Pairwise fun r r' => r.1 ≤ r'.1
  range : ∀ r ∈ records, low ≤ r.1 ∧ r.1 ≤ high

/-- The lines are the texts of such records. -/
def Records (low high : ℤ) (lines : List CString) : Prop :=
  ∃ records, InOrder low high records ∧ lines = records.map recordText

section records

variable {low mid high tick : ℤ} {lines lines' : List CString}

theorem InOrder.append {records records' : List (ℤ × Record)} (h : InOrder low mid records)
    (h' : InOrder mid high records') (hlow : low ≤ mid) (hhigh : mid ≤ high) :
    InOrder low high (records ++ records') := by
  refine ⟨List.pairwise_append.mpr ⟨h.pairwise, h'.pairwise, fun r hr r' hr' => ?_⟩,
    List.forall_mem_append.mpr ⟨fun r hr => ?_, fun r hr => ?_⟩⟩
  · exact (h.range r hr).2.trans (h'.range r' hr').1
  · exact ⟨(h.range r hr).1, (h.range r hr).2.trans hhigh⟩
  · exact ⟨hlow.trans (h'.range r hr).1, (h'.range r hr).2⟩

theorem Records.append (h : Records low mid lines) (h' : Records mid high lines') (hlow : low ≤ mid)
    (hhigh : mid ≤ high) : Records low high (lines ++ lines') := by
  obtain ⟨records, hr, rfl⟩ := h
  obtain ⟨records', hr', rfl⟩ := h'
  exact ⟨records ++ records', hr.append hr' hlow hhigh, List.map_append.symm⟩

/-- Records of one tick. -/
theorem records_of_tick : ∀ {lines : List CString}, (∀ l ∈ lines, ∃ r, l = recordText (tick, r)) →
    Records tick tick lines
  | [], _ => ⟨[], ⟨List.Pairwise.nil, fun _ h => absurd h List.not_mem_nil⟩, rfl⟩
  | l :: lines, h => by
    obtain ⟨r, rfl⟩ := h l List.mem_cons_self
    have hone : Records tick tick [recordText (tick, r)] :=
      ⟨[(tick, r)], ⟨List.pairwise_singleton _ _, List.forall_mem_singleton.mpr ⟨le_rfl, le_rfl⟩⟩, rfl⟩
    exact hone.append (records_of_tick fun l hl => h l (List.mem_cons_of_mem _ hl)) le_rfl le_rfl

theorem Lines.records (h : Lines tick lines) : Records tick tick lines := by
  refine records_of_tick fun l hl => ?_
  obtain ⟨module, level, msg, data, rfl⟩ := h l hl
  exact ⟨.line module level msg data, rfl⟩

end records

/-! ## The interactive mode -/

/-- At every tick `interact` is a call of `process_interactive`, on whatever comes in. -/
def Attended (interact : ℤ → Controls → Controls × List CString) : Prop :=
  ∀ tick c, ∃ fuel input rest, processInteractive tick fuel c input =
    some ((interact tick c).1, rest, (interact tick c).2)

theorem statusJson_eq (tick : ℤ) (c : Controls) :
    statusJson tick c = recordText (tick, .status c.interactivePaused) := by
  unfold statusJson recordText Record.value
  cases c.interactivePaused <;>
  · simp only [intField, boolField, render, renderFields, quoted, key]
    simp only [String.reduceToList, List.cons_append, List.append_assoc, List.nil_append]
    rfl

theorem answers_interactiveCommand (tick : ℤ) (c : Controls) (line : CString) :
    ∀ l ∈ (interactiveCommand tick c line).2, ∃ paused, l = recordText (tick, .status paused) := by
  have hnone : ∀ l ∈ ([] : List CString), ∃ paused, l = recordText (tick, .status paused) :=
    fun _ h => absurd h List.not_mem_nil
  unfold interactiveCommand
  dsimp only
  split_ifs
  · exact hnone
  · exact hnone
  · exact hnone
  · exact hnone
  · exact hnone
  · exact List.forall_mem_singleton.mpr ⟨_, statusJson_eq tick c⟩
  · exact hnone
  · exact hnone

theorem answers_processInteractive {tick : ℤ} : ∀ {fuel : ℕ} {c c' : Controls} {input rest : Stdin}
    {lines : List CString}, processInteractive tick fuel c input = some (c', rest, lines) →
      ∀ l ∈ lines, ∃ paused, l = recordText (tick, .status paused)
  | fuel + 1, c, c', input, rest, lines, h => by
    rw [processInteractive] at h
    split_ifs at h
    · cases h
      exact fun _ h => absurd h List.not_mem_nil
    · dsimp only at h
      split at h
      · exact answers_processInteractive h
      · exact answers_processInteractive h
      · rename_i piece input
        have hcommand := answers_interactiveCommand tick c.pause (lineOf piece)
        split_ifs at h
        · cases h
          exact hcommand
        · obtain ⟨q, hq, he⟩ := Option.map_eq_some_iff.mp h
          cases he
          exact List.forall_mem_append.mpr ⟨hcommand, answers_processInteractive hq⟩

/-- What is printed between two ticks are answers to `status`. -/
theorem Attended.answers {interact : ℤ → Controls → Controls × List CString} (h : Attended interact)
    (tick : ℤ) (c : Controls) : ∀ l ∈ (interact tick c).2, ∃ paused, l = recordText (tick, .status paused) := by
  obtain ⟨fuel, input, rest, hcall⟩ := h tick c
  exact answers_processInteractive hcall

theorem Attended.records {interact : ℤ → Controls → Controls × List CString} (h : Attended interact)
    (tick : ℤ) (c : Controls) : Records tick tick (interact tick c).2 :=
  records_of_tick fun l hl => (h.answers tick c l hl).imp' Record.status fun _ he => he

/-! ## The loop -/

section loop

variable (interact : ℤ → Controls → Controls × List CString) {k₀ : Kernel} {cfg : KernelConfig}
  {w : List ProcessSpec} {x : Statics × Phase} {i : ℕ}

/-- The loop has done the first `i` parts of a run, unless a command has ended it before. -/
structure Follows (k₀ : Kernel) (cfg : KernelConfig) (w : List ProcessSpec) (i : ℕ) (x : Statics × Phase) :
    Prop where
  kernel : ∃ j, x.1.kernel = (machineRun (kernelInit k₀ cfg w) j).1
  phase : x.2 ≠ .halted → machineOf x = machineRun (kernelInit k₀ cfg w) i
  clocks : x.2 ≠ .top → x.2 ≠ .halted → x.1.clocks = ⟨x.1.kernel.currentTick, x.1.kernel.currentTick⟩

theorem loopStep_of_ne (hx : x.2 ≠ .top) :
    loopStep interact x =
      ({ x.1 with kernel := (machineStep (machineOf x)).1 }, (machineStep (machineOf x)).2) := by
  obtain ⟨s, ph⟩ := x
  cases ph with
  | top => exact absurd rfl hx
  | _ => rfl

/-- At its top the loop ends, or it begins a tick. -/
theorem loopStep_top_cases (s : Statics) :
    (∃ c, loopStep interact (s, .top) = ({ s with controls := c }, .halted)) ∨
      ∃ c, loopStep interact (s, .top) = ({ s with
        kernel := (machineStep (s.kernel, .top)).1
        controls := c
        clocks := ⟨s.kernel.currentTick, s.kernel.currentTick⟩ }, (machineStep (s.kernel, .top)).2) := by
  simp only [loopStep]
  split_ifs
  · exact Or.inl ⟨s.controls, rfl⟩
  · exact Or.inl ⟨_, rfl⟩
  · exact Or.inr ⟨_, rfl⟩
  · exact Or.inl ⟨_, rfl⟩
  · exact Or.inr ⟨_, rfl⟩

theorem currentTick_top (k : Kernel) : (machineStep (k, .top)).1.currentTick = k.currentTick := by
  simp only [machineStep]
  split_ifs <;> rfl

theorem Follows.loopStep (hw : ValidWorkload w) (h : Follows k₀ cfg w i x) :
    Follows k₀ cfg w (i + 1) (loopStep interact x) := by
  by_cases hhalt : x.2 = .halted
  · obtain ⟨s, ph⟩ := x
    obtain rfl : ph = .halted := hhalt
    exact ⟨h.kernel, fun hne => absurd rfl hne, fun _ hne => absurd rfl hne⟩
  have hm := h.phase hhalt
  by_cases htop : x.2 = .top
  · obtain ⟨s, ph⟩ := x
    obtain rfl : ph = .top := htop
    have hm : (s.kernel, Phase.top) = machineRun (kernelInit k₀ cfg w) i := hm
    rcases loopStep_top_cases interact s with ⟨c, he⟩ | ⟨c, he⟩ <;> rw [he]
    · exact ⟨h.kernel, fun hne => absurd rfl hne, fun _ hne => absurd rfl hne⟩
    · have hnext : machineStep (s.kernel, .top) = machineRun (kernelInit k₀ cfg w) (i + 1) := by
        rw [machineRun_succ, hm]
      refine ⟨⟨i + 1, congrArg Prod.fst hnext⟩, fun _ => hnext, fun _ _ => ?_⟩
      dsimp only
      rw [currentTick_top]
  · have hnext : machineStep (machineOf x) = machineRun (kernelInit k₀ cfg w) (i + 1) := by
      rw [machineRun_succ, hm]
    have ht := tables_machineRun k₀ cfg hw i
    rw [← hm] at ht
    rw [loopStep_of_ne interact htop]
    refine ⟨⟨i + 1, congrArg Prod.fst hnext⟩, fun _ => hnext, fun htop' hhalt' => ?_⟩
    -- the last part of a tick leads to the top or to the end
    have hfinish : x.2 ≠ .finish := by
      rintro hf
      obtain ⟨s, ph⟩ := x
      obtain rfl : ph = .finish := hf
      simp only [machineOf, machineStep] at htop' hhalt'
      split_ifs at htop' hhalt'
      · exact hhalt' rfl
      · exact htop' rfl
    have htick : (machineStep (machineOf x)).1.currentTick = x.1.kernel.currentTick :=
      (tableStep ht).currentTick hfinish
    dsimp only
    rw [htick]
    exact h.clocks htop hhalt

/-- What the loop prints in one round without being interactive. -/
theorem Follows.lines (hw : ValidWorkload w) (hm : Moderate w) (hnames : ∀ p ∈ w, Plain p.name)
    (hpos : 0 < cfg.maxTicks) (hlast : cfg.maxTicks ≤ lastTick) (h : Follows k₀ cfg w i x)
    (hquiet : x.2 = .top → x.1.interactive = false) :
    Lines x.1.kernel.currentTick (loopLog interact x) := by
  by_cases hhalt : x.2 = .halted
  · obtain ⟨s, ph⟩ := x
    obtain rfl : ph = .halted := hhalt
    exact lines_nil
  have hrun := h.phase hhalt
  have hstep : machineStep (machineOf x) = machineRun (kernelInit k₀ cfg w) (i + 1) := by
    rw [machineRun_succ, hrun]
  have htick : ∀ n, (machineRun (kernelInit k₀ cfg w) n).1.currentTick ≤ lastTick := fun n =>
    (bounded_machineRun k₀ hw hpos n).tick_le.trans hlast
  by_cases htop : x.2 = .top
  · have hni := hquiet htop
    obtain ⟨s, ph⟩ := x
    obtain rfl : ph = .top := htop
    have hni : s.interactive = false := hni
    simp only [FleetOS.loopLog, hni, Bool.false_eq_true, if_false]
    split_ifs with _ hup
    · exact lines_nil
    · have hup := of_decide_eq_true hup
      simp only [partLog, if_pos hup]
      exact lines_singleton (isLine_nil (by decide) (by decide))
    · exact lines_nil
  · have hlog : FleetOS.loopLog interact x = partLog x.1.clocks (machineOf x) := by
      obtain ⟨s, ph⟩ := x
      cases ph with
      | top => exact absurd rfl htop
      | _ => rfl
    have hreport : Reporting (machineOf x).1 (machineOf x).1.currentTick := by
      have hr := reporting_machineRun k₀ cfg hw hm hnames i (htick i)
      rw [← hrun] at hr
      exact hr htop hhalt
    rw [hlog, h.clocks htop hhalt]
    refine lines_partLog hreport fun hs => ?_
    have hsync : snapshotSync (machineOf x).1 = (machineRun (kernelInit k₀ cfg w) (i + 1)).1 := by
      rw [← hstep]
      obtain ⟨s, ph⟩ := x
      obtain rfl : ph = .snapshot := hs
      rfl
    rw [hsync]
    exact ⟨(measured_machineRun k₀ cfg hw hm (i + 1)).displayable hw hm (htick _),
      plainNames_machineRun k₀ cfg hw hnames _⟩

/-- What the loop prints in one round. -/
theorem Follows.records (hw : ValidWorkload w) (hm : Moderate w) (hnames : ∀ p ∈ w, Plain p.name)
    (hpos : 0 < cfg.maxTicks) (hlast : cfg.maxTicks ≤ lastTick) (h : Follows k₀ cfg w i x)
    (hinteract : x.1.interactive = true → Attended interact) :
    Records x.1.kernel.currentTick x.1.kernel.currentTick (loopLog interact x) := by
  by_cases hi : x.1.interactive = true
  · by_cases htop : x.2 = .top
    · have hanswers := (hinteract hi).records x.1.kernel.currentTick x.1.controls
      obtain ⟨s, ph⟩ := x
      obtain rfl : ph = .top := htop
      have hi : s.interactive = true := hi
      simp only [FleetOS.loopLog, hi, if_true]
      split_ifs with _ hup
      · exact lines_nil.records
      · have hup := of_decide_eq_true hup
        simp only [partLog, if_pos hup]
        exact (lines_singleton (isLine_nil (by decide) (by decide))).records
      · exact hanswers
    · exact (h.lines interact hw hm hnames hpos hlast fun ht => absurd ht htop).records
  · exact (h.lines interact hw hm hnames hpos hlast fun _ => by simpa using hi).records

theorem Follows.currentTick_le (hw : ValidWorkload w) (h : Follows k₀ cfg w i x) :
    x.1.kernel.currentTick ≤ (FleetOS.loopStep interact x).1.kernel.currentTick := by
  by_cases htop : x.2 = .top
  · obtain ⟨s, ph⟩ := x
    obtain rfl : ph = .top := htop
    rcases loopStep_top_cases interact s with ⟨c, he⟩ | ⟨c, he⟩ <;> rw [he]
    exact (currentTick_top s.kernel).ge
  · rw [loopStep_of_ne interact htop]
    by_cases hhalt : x.2 = .halted
    · obtain ⟨s, ph⟩ := x
      obtain rfl : ph = .halted := hhalt
      exact le_rfl
    · have ht := tables_machineRun k₀ cfg hw i
      rw [← h.phase hhalt] at ht
      exact currentTick_le_machineStep ht

theorem interactive_loopStep (x : Statics × Phase) :
    (loopStep interact x).1.interactive = x.1.interactive := by
  by_cases htop : x.2 = .top
  · obtain ⟨s, ph⟩ := x
    obtain rfl : ph = .top := htop
    rcases loopStep_top_cases interact s with ⟨c, he⟩ | ⟨c, he⟩ <;> rw [he]
  · rw [loopStep_of_ne interact htop]

end loop

/-! ## Simulations -/

section simulations

variable (interact : ℤ → Controls → Controls × List CString) (s : Statics) (cfg : LaunchConfig)
  {w : List ProcessSpec}

theorem follows_iterate (hw : ValidWorkload w) (i : ℕ) :
    Follows s.kernel cfg.toKernelConfig w i ((loopStep interact)^[i] (initStatics s cfg w, .top)) := by
  induction i with
  | zero => exact ⟨⟨0, rfl⟩, fun _ => rfl, fun htop => absurd rfl htop⟩
  | succ i ih =>
    rw [Function.iterate_succ_apply']
    exact ih.loopStep interact hw

theorem interactive_iterate (i : ℕ) :
    ((loopStep interact)^[i] (initStatics s cfg w, .top)).1.interactive = cfg.interactive := by
  induction i with
  | zero => rfl
  | succ i ih =>
    rw [Function.iterate_succ_apply', interactive_loopStep]
    exact ih

theorem runOut_succ {σ ο : Type*} (step : σ → σ) (out : σ → List ο) (n : ℕ) (s : σ) :
    runOut step out (n + 1) s = runOut step out n s ++ out (step^[n] s) := by
  simp [runOut, List.range_succ]

/-- The loop comes to its end in the parts that it is allowed. -/
theorem halted_simulation (hw : ValidWorkload w) (hpos : 0 < cfg.maxTicks) :
    ((loopStep interact)^[(initStatics s cfg w).parts] (initStatics s cfg w, .top)).2 = .halted := by
  have hcfg : (initStatics s cfg w).kernel.config = cfg.toKernelConfig := config_kernelInit _ _ w
  have ht : InTime ((initStatics s cfg w).kernel, .top) :=
    ⟨⟨tables_kernelInit s.kernel _ hw, fun t ht => by cases ht⟩, hcfg ▸ hpos, fun htop => absurd rfl htop⟩
  by_contra hne
  refine hne ((congrArg Prod.snd ((follows_iterate interact s cfg hw _).phase hne)).trans (ht.halted ?_))
  simp only [stepsLeft, Statics.parts, Phase.remaining, reduceCtorEq, if_false]
  omega

end simulations

/-! ## The program -/

def lookup (name : String) (fields : List (Text × Value)) : Option Value :=
  (fields.find? fun f => f.1.chars = name.toList).map Prod.snd

/-- A key that is there already gets the new value. -/
def setItem (f : Text × Value) : List (Text × Value) → List (Text × Value)
  | [] => [f]
  | g :: fields => if g.1 = f.1 then (g.1, f.2) :: fields else g :: setItem f fields

mutual

/-- A value as `json.loads` builds it: of a key that comes twice the last value counts. -/
def loaded : Value → Value
  | .null => .null
  | .bool b => .bool b
  | .int v => .int v
  | .str s => .str s
  | .arr items => .arr (loadedItems items)
  | .obj fields => .obj (loadedFields fields [])

def loadedItems : List Value → List Value
  | [] => []
  | v :: items => loaded v :: loadedItems items

def loadedFields : List (Text × Value) → List (Text × Value) → List (Text × Value)
  | [], dict => dict
  | (k, v) :: fields, dict => loadedFields fields (setItem (k, loaded v) dict)

end

def Record.loaded : Record → Record
  | .line module level msg data => .line module level msg (data.map FleetOS.loaded)
  | .status paused => .status paused

section server

theorem lookup_cons_self {name : String} {k : Text} (v : Value) (fields : List (Text × Value))
    (h : k.chars = name.toList) : lookup name ((k, v) :: fields) = some v := by
  simp [lookup, h]

/-- Somebody who types `step` whenever the program waits. -/
def stepper (_ : ℤ) (c : Controls) : Controls × List CString :=
  if c.holds then ({ c with stepTarget := 0, interactivePaused := false }, []) else (c.release, [])

theorem attended_stepper : Attended stepper := by
  intro tick c
  cases hc : c.holds with
  | false => exact ⟨1, [], [], by simp [processInteractive, stepper, hc]⟩
  | true =>
    refine ⟨2, [some "step\n".toList], [], ?_⟩
    have hline : lineOf "step\n".toList = "step".toList := by decide
    have hquit : "step".toList ≠ "quit".toList := by decide
    have hcommand : interactiveCommand tick c.pause "step".toList = (⟨c.running, false, 1⟩, []) := by
      rw [← c.pause_rest.2]
      exact if_pos rfl
    have hholds : (⟨c.running, false, 1⟩ : Controls).holds = false := by simp [Controls.holds]
    rw [processInteractive]
    simp only [hc, hline, hcommand, if_neg hquit]
    rw [processInteractive]
    simp [hholds, Controls.release, stepper, hc]

end server

end FleetOS
