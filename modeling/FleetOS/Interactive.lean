import FleetOS.Statics

/-!
# The interactive mode

`process_interactive`, which `kernel_run` calls before every tick of an interactive run. Two
variables hold its mode : the loop is left while `interactive_paused` is clear and `step_target`
is positive, and is entered with both set so that only a command ends it.

What the loop finds when it looks at `stdin` is a list with an entry for each look : `none` where
`select` runs out of time, and otherwise what `fgets` returns, at most 255 characters. Behind the
list is the end of the file, where `select` reports `stdin` readable and `fgets` returns `NULL`.
There the loop goes on as well. A call returns exactly when the variables let it pass or one of
the commands that do is still to come (`returns_iff_canPass`), and so do the calls of a whole run
(`interactive_calls_return_iff`).
-/

namespace FleetOS

/-! ## Numbers -/

/-- `isspace`. -/
def isSpace (c : Char) : Bool := c = ' ' ∨ (9 ≤ c.toNat ∧ c.toNat ≤ 13)

def digitsValue (s : CString) : ℤ :=
  (s.takeWhile Char.isDigit).foldl (fun n c => 10 * n + (c.toNat - 48)) 0

/-- The number that a text starts with, as `strtol` reads it. -/
def leadingNumber (s : CString) : ℤ :=
  match s.dropWhile isSpace with
  | '-' :: s => -digitsValue s
  | '+' :: s => digitsValue s
  | s => digitsValue s

/-- `(int) strtol` : the number is cut to a `long`, and its low 32 bits are taken. -/
def atoi (s : CString) : ℤ := wrapInt (max (-2 ^ 63) (min (2 ^ 63 - 1) (leadingNumber s)))

/-! ## The loop -/

/-- The line without its end. -/
def lineOf (piece : CString) : CString := piece.takeWhile fun c => c ≠ '\n' ∧ c.toNat ≠ 0

def statusJson (tick : ℤ) (c : Controls) : CString :=
  "\x7b".toList ++ intField "tick" tick ++ ",".toList ++ boolField "paused" c.interactivePaused ++
    "\x7d\n".toList

/-- The commands, with what they print. -/
def interactiveCommand (tick : ℤ) (c : Controls) (line : CString) : Controls × List CString :=
  if line = "step".toList then ({ c with stepTarget := 1, interactivePaused := false }, [])
  else if "run ".toList <+: line then
    let n := atoi (line.drop 4)
    if 0 < n then ({ c with stepTarget := n, interactivePaused := false }, []) else (c, [])
  else if line = "run".toList then
    ({ c with stepTarget := 0, interactivePaused := false }, [])
  else if line = "pause".toList then ({ c with interactivePaused := true, stepTarget := 0 }, [])
  else if line = "status".toList then (c, [statusJson tick c])
  else if line = "quit".toList then ({ c with running := false }, [])
  else (c, [])

namespace Controls

/-- The test of the loop. -/
def holds (c : Controls) : Bool := c.interactivePaused ∨ c.stepTarget ≤ 0

/-- The first statement of the loop. -/
def pause (c : Controls) : Controls :=
  if c.stepTarget ≤ 0 ∧ !c.interactivePaused then { c with interactivePaused := true } else c

/-- The statement behind the loop. -/
def release (c : Controls) : Controls :=
  if 0 < c.stepTarget then { c with stepTarget := c.stepTarget - 1 } else c

end Controls

abbrev Stdin := List (Option CString)

/-- A call with as many rounds of its loop as `fuel` says. It leaves the variables, what it has not
read, and what it printed. -/
def processInteractive (tick : ℤ) : ℕ → Controls → Stdin → Option (Controls × Stdin × List CString)
  | 0, _, _ => none
  | fuel + 1, c, input =>
    if !c.holds then some (c.release, input, [])
    else
      let c := c.pause
      match input with
      | [] => processInteractive tick fuel c []
      | none :: input => processInteractive tick fuel c input
      | some piece :: input =>
        let line := lineOf piece
        let r := interactiveCommand tick c line
        if line = "quit".toList then some (r.1, input, r.2)
        else (processInteractive tick fuel r.1 input).map fun q => (q.1, q.2.1, r.2 ++ q.2.2)

/-! ## What ends a call -/

/-- `step`, `run` with a number that is positive as an `int`, or `quit`. -/
def Releases (line : CString) : Prop :=
  line = "step".toList ∨ ("run ".toList <+: line ∧ 0 < atoi (line.drop 4)) ∨ line = "quit".toList

variable {tick : ℤ} {c : Controls} {line : CString}

namespace Controls

theorem holds_iff : c.holds = true ↔ c.interactivePaused = true ∨ c.stepTarget ≤ 0 := decide_eq_true_iff

theorem not_holds_iff : c.holds = false ↔ c.interactivePaused = false ∧ 0 < c.stepTarget := by
  rw [← Bool.not_eq_true, holds_iff, not_or, Bool.not_eq_true, not_le]

theorem pause_of_holds (h : c.holds = true) : c.pause.interactivePaused = true := by
  unfold pause
  split_ifs with hp
  · rfl
  · rcases holds_iff.mp h with hpaused | htarget
    · exact hpaused
    · by_contra hpaused
      exact hp ⟨htarget, by simpa using hpaused⟩

theorem pause_rest : c.pause.stepTarget = c.stepTarget ∧ c.pause.running = c.running := by
  unfold pause
  split_ifs <;> exact ⟨rfl, rfl⟩

end Controls

/-- A command lets a waiting loop pass if it is one of the three. -/
theorem interactiveCommand_holds (tick : ℤ) (hpaused : c.interactivePaused = true)
    (hquit : line ≠ "quit".toList) :
    (interactiveCommand tick c line).1.holds = false ↔ Releases line := by
  have hself : ¬c.holds = false := by
    rw [Bool.not_eq_false, Controls.holds_iff]
    exact Or.inl hpaused
  unfold interactiveCommand Releases
  simp only [hquit, or_false, if_false]
  split_ifs with hstep hrunN hpos hrun hpause hstatus
  · exact iff_of_true rfl (Or.inl hstep)
  · exact iff_of_true (Controls.not_holds_iff.mpr ⟨rfl, hpos⟩) (Or.inr ⟨hrunN, hpos⟩)
  · exact iff_of_false hself fun h => h.elim hstep fun h => hpos h.2
  · refine iff_of_false (fun h => ?_) fun h => h.elim hstep fun h => hrunN h.1
    exact absurd (Controls.not_holds_iff.mp h).2 (lt_irrefl 0)
  · refine iff_of_false (fun h => ?_) fun h => h.elim hstep fun h => hrunN h.1
    exact absurd (Controls.not_holds_iff.mp h).2 (lt_irrefl 0)
  · exact iff_of_false hself fun h => h.elim hstep fun h => hrunN h.1
  · exact iff_of_false hself fun h => h.elim hstep fun h => hrunN h.1

theorem interactiveCommand_quit :
    (interactiveCommand tick c "quit".toList).1 = { c with running := false } := by
  simp [interactiveCommand]

/-! ## Calls -/

/-- The round of a loop that goes on. -/
theorem processInteractive_succ (h : c.holds = true) (fuel : ℕ) (input : Stdin) :
    processInteractive tick (fuel + 1) c input =
      match input with
      | [] => processInteractive tick fuel c.pause []
      | none :: input => processInteractive tick fuel c.pause input
      | some piece :: input =>
        if lineOf piece = "quit".toList then
          some ((interactiveCommand tick c.pause (lineOf piece)).1, input,
            (interactiveCommand tick c.pause (lineOf piece)).2)
        else (processInteractive tick fuel (interactiveCommand tick c.pause (lineOf piece)).1 input).map
          fun q => (q.1, q.2.1, (interactiveCommand tick c.pause (lineOf piece)).2 ++ q.2.2) := by
  conv_lhs => unfold processInteractive
  rw [h]
  rfl

theorem processInteractive_command (h : c.holds = true) {piece : CString}
    (hquit : lineOf piece ≠ "quit".toList) (fuel : ℕ) (input : Stdin) :
    processInteractive tick (fuel + 1) c (some piece :: input) =
      (processInteractive tick fuel (interactiveCommand tick c.pause (lineOf piece)).1 input).map
        fun q => (q.1, q.2.1, (interactiveCommand tick c.pause (lineOf piece)).2 ++ q.2.2) :=
  (processInteractive_succ h fuel _).trans (if_neg hquit)

theorem processInteractive_of_not_holds (tick : ℤ) (h : c.holds = false) (fuel : ℕ) (input : Stdin) :
    processInteractive tick (fuel + 1) c input = some (c.release, input, []) := by
  unfold processInteractive
  rw [h]
  rfl

/-- What a call leaves lets `kernel_run` run a tick, or ends it. -/
def Controls.Passed (c : Controls) : Prop := c.running = false ∨ c.interactivePaused = false

theorem passed_of_not_holds (h : c.holds = false) : c.release.Passed := by
  have hpaused := (Controls.not_holds_iff.mp h).1
  unfold Controls.release
  split_ifs
  · exact Or.inr hpaused
  · exact Or.inr hpaused

theorem passed_processInteractive {fuel : ℕ} {input : Stdin} {r : Controls × Stdin × List CString}
    (h : processInteractive tick fuel c input = some r) : r.1.Passed := by
  induction fuel generalizing c input r with
  | zero => cases h
  | succ fuel ih =>
    cases hholds : c.holds with
    | false =>
      rw [processInteractive_of_not_holds _ hholds] at h
      exact Option.some.inj h ▸ passed_of_not_holds hholds
    | true =>
      rw [processInteractive_succ hholds] at h
      match input, h with
      | [], h => exact ih h
      | none :: input, h => exact ih h
      | some piece :: input, h =>
        dsimp only at h
        split_ifs at h with hquit
        · rw [← Option.some.inj h, hquit, interactiveCommand_quit]
          exact Or.inl rfl
        · obtain ⟨q, hq, rfl⟩ := Option.map_eq_some_iff.mp h
          have hp : q.1.Passed := ih hq
          exact hp

/-- A loop that goes on needs one of the three commands. -/
theorem exists_releases_of_returns (hholds : c.holds = true) {fuel : ℕ} {input : Stdin}
    {r : Controls × Stdin × List CString} (h : processInteractive tick fuel c input = some r) :
    ∃ piece, some piece ∈ input ∧ Releases (lineOf piece) := by
  induction fuel generalizing c input r with
  | zero => cases h
  | succ fuel ih =>
    have hpaused := Controls.pause_of_holds hholds
    have hpause : c.pause.holds = true := Controls.holds_iff.mpr (Or.inl hpaused)
    match input, h with
    | [], h =>
      rw [processInteractive_succ hholds] at h
      exact ih hpause h
    | none :: input, h =>
      rw [processInteractive_succ hholds] at h
      obtain ⟨piece, hmem, hrel⟩ := ih hpause h
      exact ⟨piece, List.mem_cons_of_mem _ hmem, hrel⟩
    | some piece :: input, h =>
      by_cases hrel : Releases (lineOf piece)
      · exact ⟨piece, List.mem_cons_self, hrel⟩
      have hquit : lineOf piece ≠ "quit".toList := fun hq => hrel (Or.inr (Or.inr hq))
      rw [processInteractive_command hholds hquit] at h
      obtain ⟨q, hq, -⟩ := Option.map_eq_some_iff.mp h
      have hon := (interactiveCommand_holds tick hpaused hquit).not.mpr hrel
      obtain ⟨piece', hmem, hrel'⟩ := ih (Bool.not_eq_false _ ▸ hon) hq
      exact ⟨piece', List.mem_cons_of_mem _ hmem, hrel'⟩

/-- The first of the three commands ends it. -/
theorem returns_of_exists_releases (tick : ℤ) (hholds : c.holds = true) {input : Stdin}
    (h : ∃ piece, some piece ∈ input ∧ Releases (lineOf piece)) :
    ∃ fuel r, processInteractive tick fuel c input = some r := by
  induction input generalizing c with
  | nil =>
    obtain ⟨piece, hmem, -⟩ := h
    cases hmem
  | cons poll input ih =>
    have hpaused := Controls.pause_of_holds hholds
    obtain ⟨piece, hmem, hrel⟩ := h
    cases poll with
    | none =>
      have hrest : some piece ∈ input := (List.mem_cons.mp hmem).resolve_left (by simp)
      obtain ⟨fuel, r, hr⟩ := ih (Controls.holds_iff.mpr (Or.inl hpaused)) ⟨piece, hrest, hrel⟩
      exact ⟨fuel + 1, r, (processInteractive_succ hholds _ _).trans hr⟩
    | some first =>
      by_cases hquit : lineOf first = "quit".toList
      · exact ⟨1, _, (processInteractive_succ hholds _ _).trans (if_pos hquit)⟩
      have hpass := interactiveCommand_holds tick hpaused hquit
      by_cases hfirst : Releases (lineOf first)
      · have hr := processInteractive_of_not_holds tick (hpass.mpr hfirst) 0 input
        exact ⟨2, _, (processInteractive_command hholds hquit 1 input).trans (congrArg _ hr)⟩
      · have hrest : some piece ∈ input :=
          (List.mem_cons.mp hmem).resolve_left fun he => hfirst (Option.some.inj he ▸ hrel)
        obtain ⟨fuel, r, hr⟩ := ih (Bool.not_eq_false _ ▸ hpass.not.mpr hfirst) ⟨piece, hrest, hrel⟩
        exact ⟨fuel + 1, _, (processInteractive_command hholds hquit fuel input).trans (congrArg _ hr)⟩

/-! ## Runs -/

/-- A call of `process_interactive` before a tick. -/
structure InteractiveCall where
  tick : ℤ
  controls : Controls
  input : Stdin

namespace InteractiveCall

/-- The call comes back, with a tick allowed or `running` cleared. -/
def Returns (call : InteractiveCall) : Prop :=
  ∃ fuel r, processInteractive call.tick fuel call.controls call.input = some r ∧ r.1.Passed

/-- The variables let the call pass, or a command that does is still to come. -/
def CanPass (call : InteractiveCall) : Prop :=
  (call.controls.interactivePaused = false ∧ 0 < call.controls.stepTarget) ∨
    ∃ piece, some piece ∈ call.input ∧ Releases (lineOf piece)

theorem returns_iff_canPass (call : InteractiveCall) : call.Returns ↔ call.CanPass := by
  unfold Returns CanPass
  rw [← Controls.not_holds_iff]
  cases hholds : call.controls.holds with
  | false =>
    refine iff_of_true ⟨1, _, processInteractive_of_not_holds _ hholds 0 _, ?_⟩ (Or.inl rfl)
    exact passed_of_not_holds hholds
  | true =>
    rw [or_iff_right Bool.true_eq_false.mp]
    constructor
    · rintro ⟨fuel, r, hr, -⟩
      exact exists_releases_of_returns hholds hr
    · intro h
      obtain ⟨fuel, r, hr⟩ := returns_of_exists_releases call.tick hholds h
      exact ⟨fuel, r, hr, passed_processInteractive hr⟩

end InteractiveCall

/-- The calls of an interactive run that starts with `start` : each gets what the one before it has
left, if that one let a tick run. -/
inductive CallAt (start : InteractiveCall) : ℕ → InteractiveCall → Prop
  | first : CallAt start 0 start
  | next {n : ℕ} {call : InteractiveCall} {fuel : ℕ} {r : Controls × Stdin × List CString}
      (h : CallAt start n call)
      (hr : processInteractive call.tick fuel call.controls call.input = some r)
      (hrun : r.1.running = true) : CallAt start (n + 1) ⟨call.tick + 1, r.1, r.2.1⟩

/-- The first `n` calls of a run return exactly when each of them can pass. -/
theorem interactive_calls_return_iff (start : InteractiveCall) (n : ℕ) :
    (∀ i < n, ∀ call, CallAt start i call → call.Returns) ↔
      ∀ i < n, ∀ call, CallAt start i call → call.CanPass :=
  forall₂_congr fun _ _ => forall₂_congr fun call _ => call.returns_iff_canPass

/-- Behind the end of the file a waiting call does not come back. -/
theorem InteractiveCall.not_returns_of_eof {call : InteractiveCall} (h : call.input = [])
    (hholds : call.controls.holds = true) : ¬call.Returns := by
  rw [call.returns_iff_canPass, CanPass, h, ← Controls.not_holds_iff, hholds]
  rintro (hpass | ⟨piece, hmem, -⟩)
  · cases hpass
  · cases hmem

/-- With nothing to read the first call of a run does not come back, and after one `step` the second
does not. -/
theorem interactive_end_of_file :
    ¬(⟨0, ⟨true, false, 0⟩, []⟩ : InteractiveCall).Returns ∧
      ∃ call, CallAt ⟨0, ⟨true, false, 0⟩, [some "step\n".toList]⟩ 1 call ∧ ¬call.Returns := by
  have hstep : processInteractive 0 2 ⟨true, false, 0⟩ [some "step\n".toList] =
      some (⟨true, false, 0⟩, [], []) := rfl
  exact ⟨InteractiveCall.not_returns_of_eof rfl rfl, _, .next .first hstep rfl,
    InteractiveCall.not_returns_of_eof rfl rfl⟩

end FleetOS
