import FleetOS.Interactive
import FleetOS.Runs
import Mathlib.Data.List.TakeWhile

/-!
# What the commands are for

Lines arrive on `stdin` at any points of an interactive run, and the program takes its turns
between them : a look at `stdin` while `process_interactive` waits, or a tick up to the next time
the loop is left or waits. `Session` is this machine, made of the same parts as
`processInteractive` (`turns_of_processInteractive`). `select` looks at the descriptor and `fgets`
takes a line from the buffer of `stdin`, which a `read` fills with what has arrived (`Input`).

`View` is the machine of the commands' purpose. `step` lets one tick run, `run N` lets `N` ticks
run, `run` lets ticks run until further notice, `pause` and `quit` stop a run before its next tick,
and while nothing runs the lines are taken one after the other.

The program looks at no line while a run is in progress, `run` leaves the variables as they are when
the loop waits, the number of `run N` is cut to an `int`, and a line that came into the buffer with
another is not seen before something new arrives. Along every run these are all the differences
(`interactive_follows_iff`).
-/

namespace FleetOS

/-- A line that `fgets` reads in one piece. -/
structure InputLine where
  text : CString
  short : text.length < 255
  plain : text.all fun c => c ≠ '\n' ∧ c.toNat ≠ 0

/-- What arrives. -/
def InputLine.piece (l : InputLine) : CString := l.text ++ ['\n']

/-- The line stops a run. -/
def InputLine.stops (l : InputLine) : Bool := l.text = "pause".toList ∨ l.text = "quit".toList

/-- A line arrives, or the program takes a turn. If it reads then, `more` of the lines behind the first
come with it. -/
inductive SessionEvent
  | arrive (l : InputLine)
  | turn (more : ℕ)

/-! ## The purpose -/

/-- The ticks that are still to run after the present one. -/
inductive TickGrant
  | ticks (n : ℕ)
  | unlimited
  deriving DecidableEq

def TickGrant.spend : TickGrant → Option TickGrant
  | .ticks 0 => none
  | .ticks (n + 1) => some (.ticks n)
  | .unlimited => some .unlimited

/-- What a line lets run, after a first tick. -/
def granted (line : CString) : Option TickGrant :=
  if line = "step".toList then some (.ticks 0)
  else if "run ".toList <+: line then
    let n := leadingNumber (line.drop 4)
    if 0 < n then some (.ticks (n - 1).toNat) else none
  else if line = "run".toList then some .unlimited
  else none

inductive Mode
  | waiting
  | ticking (owed : TickGrant)
  | stopped
  deriving DecidableEq

structure View where
  mode : Mode
  unread : List InputLine
  tick : ℤ

def viewTurn (v : View) : View :=
  match v.mode with
  | .waiting =>
    match v.unread with
    | [] => v
    | l :: ls =>
      if l.text = "quit".toList then ⟨.stopped, ls, v.tick⟩
      else ⟨((granted l.text).map Mode.ticking).getD .waiting, ls, v.tick⟩
  | .ticking owed =>
    match owed.spend with
    | none => ⟨.waiting, v.unread, v.tick + 1⟩
    | some rest =>
      match v.unread.dropWhile fun l => !l.stops with
      | [] => ⟨.ticking rest, v.unread, v.tick + 1⟩
      | l :: ls => ⟨if l.text = "quit".toList then .stopped else .waiting, ls, v.tick + 1⟩
  | .stopped => v

def viewStep (v : View) : SessionEvent → View
  | .arrive l => { v with unread := v.unread ++ [l] }
  | .turn _ => viewTurn v

def viewRun (events : List SessionEvent) : View := events.foldl viewStep ⟨.waiting, [], 0⟩

/-- A run that nothing stops has the ticks it was granted, and waits. -/
theorem viewTurn_ticks {ls : List InputLine} (hls : ∀ l ∈ ls, l.stops = false) (n : ℕ) (tick : ℤ) :
    viewTurn^[n + 1] ⟨.ticking (.ticks n), ls, tick⟩ = ⟨.waiting, ls, tick + (n + 1)⟩ := by
  have hdrop : (ls.dropWhile fun l => !l.stops) = [] :=
    List.dropWhile_eq_nil_iff.mpr fun l hl => by rw [hls l hl]; rfl
  induction n generalizing tick with
  | zero => simp [viewTurn, TickGrant.spend]
  | succ n ih =>
    rw [Function.iterate_succ_apply]
    have hturn : viewTurn ⟨.ticking (.ticks (n + 1)), ls, tick⟩ =
        ⟨.ticking (.ticks n), ls, tick + 1⟩ := by
      simp only [viewTurn, TickGrant.spend, hdrop]
    rw [hturn, ih]
    push_cast
    rw [add_assoc, add_comm (1 : ℤ)]

/-! ## The program -/

/-- In the loop of `process_interactive`, behind it, or at the end of the run. -/
inductive Place
  | waiting
  | ticking
  | stopped

/-- The lines in the buffer of `stdin`, and behind them those on the descriptor. A line of which only
a part has been read counts as on the descriptor, where its end is. -/
structure Input where
  buffered : List InputLine
  descriptor : List InputLine

namespace Input

def unread (i : Input) : List InputLine := i.buffered ++ i.descriptor

/-- `select` runs out of time if there is nothing on the descriptor, whatever the buffer holds. `fgets`
reads from the descriptor if there is no line in the buffer. -/
def look (more : ℕ) : Input → Option (InputLine × Input)
  | ⟨_, []⟩ => none
  | ⟨l :: buffered, descriptor⟩ => some (l, ⟨buffered, descriptor⟩)
  | ⟨[], l :: descriptor⟩ => some (l, ⟨descriptor.take more, descriptor.drop more⟩)

variable {i i' : Input} {more : ℕ} {l : InputLine}

theorem look_eq_none_iff : i.look more = none ↔ i.descriptor = [] := by
  obtain ⟨buffered, descriptor⟩ := i
  cases descriptor <;> cases buffered <;> simp [look]

/-- The lines are taken in the order of their arrival. -/
theorem unread_of_look (h : i.look more = some (l, i')) : i.unread = l :: i'.unread := by
  obtain ⟨buffered, descriptor⟩ := i
  match buffered, descriptor, h with
  | _ :: _, _ :: _, rfl => rfl
  | [], _ :: descriptor, rfl => exact congrArg _ (List.take_append_drop more descriptor).symm

end Input

structure Session where
  controls : Controls
  place : Place
  input : Input
  tick : ℤ

namespace Session

/-- The loop is tested. -/
def enter (c : Controls) (input : Input) (tick : ℤ) : Session :=
  if c.holds then ⟨c.pause, .waiting, input, tick⟩ else ⟨c.release, .ticking, input, tick⟩

def turn (s : Session) (more : ℕ) : Session :=
  match s.place with
  | .waiting =>
    match s.input.look more with
    | none => s
    | some (l, input) =>
      let c := (interactiveCommand s.tick s.controls l.text).1
      if l.text = "quit".toList then ⟨c, .stopped, input, s.tick⟩ else enter c input s.tick
  -- the tick, and the next call
  | .ticking => enter s.controls s.input (s.tick + 1)
  | .stopped => s

def step (s : Session) : SessionEvent → Session
  | .arrive l => { s with input := ⟨s.input.buffered, s.input.descriptor ++ [l]⟩ }
  | .turn more => s.turn more

/-- The first call finds both variables clear. -/
def start : Session := enter ⟨true, false, 0⟩ ⟨[], []⟩ 0

/-- The ticks that `step_target` leaves to run. -/
def view (s : Session) : View where
  mode :=
    match s.place with
    | .waiting => .waiting
    | .ticking => .ticking (.ticks s.controls.stepTarget.toNat)
    | .stopped => .stopped
  unread := s.input.unread
  tick := s.tick

/-- No line is in the buffer while nothing is on the descriptor, the next one is not `run`, and its
number is no other as an `int`; no line stops a run that is in progress. -/
def Follows (s : Session) : SessionEvent → Prop
  | .arrive _ => True
  | .turn _ =>
    match s.place with
    | .waiting => (s.input.descriptor = [] → s.input.buffered = []) ∧
        ∀ l ∈ s.input.unread.head?, l.text ≠ "run".toList ∧ ("run ".toList <+: l.text →
          max (atoi (l.text.drop 4)) 0 = max (leadingNumber (l.text.drop 4)) 0)
    | .ticking => 0 < s.controls.stepTarget → ∀ l ∈ s.input.unread, l.stops = false
    | .stopped => True

end Session

/-! ## Turns -/

namespace Session

/-- The loop waits with `interactive_paused` set, and behind it `step_target` counts ticks. -/
structure Inv (s : Session) : Prop where
  waiting : s.place = .waiting → s.controls.interactivePaused = true
  ticking : s.place = .ticking → s.controls.interactivePaused = false ∧ 0 ≤ s.controls.stepTarget

variable {c : Controls} {i i' : Input} {l : InputLine} {tick : ℤ} {more : ℕ}

theorem turn_none (h : i.look more = none) :
    (⟨c, .waiting, i, tick⟩ : Session).turn more = ⟨c, .waiting, i, tick⟩ := by
  simp only [turn, h]

theorem turn_quit (h : i.look more = some (l, i')) (hquit : l.text = "quit".toList) :
    (⟨c, .waiting, i, tick⟩ : Session).turn more =
      ⟨(interactiveCommand tick c l.text).1, .stopped, i', tick⟩ := by
  simp only [turn, h, hquit, if_true]

theorem turn_command (h : i.look more = some (l, i')) (hquit : l.text ≠ "quit".toList) :
    (⟨c, .waiting, i, tick⟩ : Session).turn more =
      enter (interactiveCommand tick c l.text).1 i' tick := by
  simp only [turn, h, hquit, if_false]

theorem enter_of_holds (h : c.holds = true) : enter c i tick = ⟨c.pause, .waiting, i, tick⟩ :=
  if_pos h

theorem enter_of_not_holds (h : c.holds = false) :
    enter c i tick = ⟨{ c with stepTarget := c.stepTarget - 1 }, .ticking, i, tick⟩ := by
  rw [enter, h, if_neg Bool.false_ne_true, Controls.release,
    if_pos (Controls.not_holds_iff.mp h).2]

theorem inv_enter (c : Controls) (i : Input) (tick : ℤ) : (enter c i tick).Inv := by
  cases h : c.holds with
  | true =>
    rw [enter_of_holds h]
    exact ⟨fun _ => Controls.pause_of_holds h, fun hp => (by cases hp)⟩
  | false =>
    rw [enter_of_not_holds h]
    obtain ⟨hpaused, hpos⟩ := Controls.not_holds_iff.mp h
    exact ⟨fun hp => (by cases hp), fun _ => ⟨hpaused, Int.le_sub_one_of_lt hpos⟩⟩

theorem view_of_holds (h : c.holds = true) : (enter c i tick).view = ⟨.waiting, i.unread, tick⟩ := by
  rw [enter_of_holds h]
  rfl

theorem view_of_not_holds (h : c.holds = false) :
    (enter c i tick).view = ⟨.ticking (.ticks (c.stepTarget - 1).toNat), i.unread, tick⟩ := by
  rw [enter_of_not_holds h]
  rfl

/-- What the program takes a line for while it waits. -/
def taken (line : CString) : Option TickGrant :=
  if line = "step".toList then some (.ticks 0)
  else if "run ".toList <+: line ∧ 0 < atoi (line.drop 4) then
    some (.ticks (atoi (line.drop 4) - 1).toNat)
  else none

theorem view_command (hpaused : c.interactivePaused = true) {line : CString}
    (hquit : line ≠ "quit".toList) :
    (enter (interactiveCommand tick c line).1 i tick).view =
      ⟨((taken line).map Mode.ticking).getD .waiting, i.unread, tick⟩ := by
  have hpass := interactiveCommand_holds tick hpaused hquit
  by_cases hrel : Releases line
  · rw [view_of_not_holds (hpass.mpr hrel)]
    rcases hrel with rfl | ⟨hrunN, hpos⟩ | hq
    · rfl
    · have hstep : line ≠ "step".toList := by
        rintro rfl
        revert hrunN
        decide
      have hc : (interactiveCommand tick c line).1.stepTarget = atoi (line.drop 4) := by
        simp only [interactiveCommand, hstep, hrunN, hpos, if_true, if_false]
      rw [hc, taken, if_neg hstep, if_pos ⟨hrunN, hpos⟩]
      rfl
    · exact absurd hq hquit
  · have hstep : line ≠ "step".toList := fun h => hrel (Or.inl h)
    rw [view_of_holds (Bool.not_eq_false _ ▸ hpass.not.mpr hrel), taken, if_neg hstep,
      if_neg fun h => hrel (Or.inr (Or.inl h))]
    rfl

/-- `run` and numbers that do not fit are taken for something else. -/
theorem taken_eq_granted_iff (line : CString) :
    taken line = granted line ↔ line ≠ "run".toList ∧ ("run ".toList <+: line →
      max (atoi (line.drop 4)) 0 = max (leadingNumber (line.drop 4)) 0) := by
  unfold taken granted
  by_cases hstep : line = "step".toList
  · subst hstep
    refine iff_of_true rfl ⟨by decide, fun h => ?_⟩
    revert h
    decide
  by_cases hrunN : "run ".toList <+: line
  · have hrun : line ≠ "run".toList := by
      rintro rfl
      revert hrunN
      decide
    simp only [hstep, hrunN, hrun, if_false, if_true, true_and, true_implies, ne_eq, not_false_eq_true]
    split_ifs
    · simp only [Option.some.injEq, TickGrant.ticks.injEq]
      omega
    · simp only [false_iff]
      omega
    · simp only [false_iff]
      omega
    · simp only [true_iff]
      omega
  · simp only [hstep, hrunN, if_false, false_and, false_implies, and_true]
    by_cases hrun : line = "run".toList <;> simp [hrun]

theorem getD_ticking_injective :
    Function.Injective fun b : Option TickGrant => (b.map Mode.ticking).getD .waiting := by
  intro a b h
  cases a <;> cases b <;> simp_all

/-- A run in progress goes on without a look at `stdin`. -/
theorem view_ticking_iff {s : Session} (h : s.Inv) (hp : s.place = .ticking) :
    (s.turn more).view = viewTurn s.view ↔
      (0 < s.controls.stepTarget → ∀ l ∈ s.input.unread, l.stops = false) := by
  obtain ⟨c, place, i, tick⟩ := s
  obtain rfl : place = .ticking := hp
  obtain ⟨hpaused, hnn⟩ := h.ticking rfl
  change (enter c i (tick + 1)).view =
    viewTurn ⟨.ticking (.ticks c.stepTarget.toNat), i.unread, tick⟩ ↔ _
  dsimp only at hpaused hnn ⊢
  rcases hnn.eq_or_lt with hzero | hpos
  · have hholds : c.holds = true := Controls.holds_iff.mpr (Or.inr hzero.symm.le)
    rw [view_of_holds hholds, ← hzero]
    exact iff_of_true rfl fun hlt => absurd hlt (lt_irrefl 0)
  · rw [view_of_not_holds (Controls.not_holds_iff.mpr ⟨hpaused, hpos⟩)]
    obtain ⟨n, hn⟩ := Int.eq_ofNat_of_zero_le hnn
    cases n with
    | zero => omega
    | succ n =>
      have hrest : (c.stepTarget - 1).toNat = n := by omega
      have howed : c.stepTarget.toNat = n + 1 := by omega
      rw [hrest, howed]
      simp only [viewTurn, TickGrant.spend, hpos, true_implies]
      cases hdrop : i.unread.dropWhile fun l => !l.stops with
      | nil =>
        refine iff_of_true rfl fun l hl => ?_
        simpa using List.dropWhile_eq_nil_iff.mp hdrop l hl
      | cons l rest =>
        have hmem : l ∈ i.unread := (List.dropWhile_subset _) (hdrop ▸ List.mem_cons_self)
        have hstops : l.stops = true := by
          have hhead := List.head?_dropWhile_not (fun l : InputLine => !l.stops) i.unread
          rw [hdrop] at hhead
          simpa using hhead
        refine iff_of_false (fun he => ?_) fun hall => ?_
        · have hmode := congrArg View.mode he
          dsimp only at hmode
          split_ifs at hmode
        · rw [hall l hmem] at hstops
          cases hstops

theorem view_waiting_iff {s : Session} (h : s.Inv) (hp : s.place = .waiting) :
    (s.turn more).view = viewTurn s.view ↔ s.Follows (.turn more) := by
  obtain ⟨c, place, i, tick⟩ := s
  obtain rfl : place = .waiting := hp
  have hpaused : c.interactivePaused = true := h.waiting rfl
  cases hlook : i.look more with
  | none =>
    have hdescriptor := Input.look_eq_none_iff.mp hlook
    rw [turn_none hlook]
    cases hbuffered : i.buffered with
    | nil =>
      have hunread : i.unread = [] := by rw [Input.unread, hbuffered, hdescriptor, List.append_nil]
      simp [viewTurn, view, Follows, hunread, hbuffered]
    | cons l ls =>
      have hunread : i.unread = l :: ls := by rw [Input.unread, hbuffered, hdescriptor, List.append_nil]
      refine iff_of_false (fun he => ?_) fun hf => ?_
      · have hrest := congrArg View.unread he
        simp only [viewTurn, view, hunread] at hrest
        split_ifs at hrest <;> exact absurd hrest (List.cons_ne_self l ls)
      · have hempty : i.buffered = [] := hf.1 hdescriptor
        rw [hbuffered] at hempty
        cases hempty
  | some found =>
    obtain ⟨l, i'⟩ := found
    have hunread := Input.unread_of_look hlook
    have hdescriptor : i.descriptor ≠ [] := fun hd => by
      rw [Input.look_eq_none_iff.mpr hd] at hlook
      cases hlook
    have hfollows : (⟨c, .waiting, i, tick⟩ : Session).Follows (.turn more) ↔
        taken l.text = granted l.text := by
      rw [taken_eq_granted_iff]
      simp [Follows, hunread, hdescriptor]
    rw [hfollows]
    by_cases hquit : l.text = "quit".toList
    · have htaken : taken l.text = granted l.text := by
        rw [hquit]
        decide
      refine iff_of_true ?_ htaken
      rw [turn_quit hlook hquit]
      simp only [viewTurn, view, hunread, hquit, if_true]
    · rw [turn_command hlook hquit, view_command hpaused hquit]
      simp only [viewTurn, view, hunread, hquit, if_false, View.mk.injEq, and_true]
      exact getD_ticking_injective.eq_iff

theorem inv_turn {s : Session} (h : s.Inv) : (s.turn more).Inv := by
  unfold turn
  split
  · split
    · exact h
    · dsimp only
      split_ifs
      · exact ⟨fun hp => (by cases hp), fun hp => (by cases hp)⟩
      · exact inv_enter _ _ _
  · exact inv_enter _ _ _
  · exact h

/-- A step shows what it should exactly where the program can follow. -/
theorem view_step_iff {s : Session} (h : s.Inv) (e : SessionEvent) :
    ((s.step e).view = viewStep s.view e ↔ s.Follows e) ∧ (s.step e).Inv := by
  cases e with
  | arrive l =>
    refine ⟨iff_of_true ?_ trivial, h.waiting, h.ticking⟩
    simp [step, view, viewStep, Input.unread]
  | turn more =>
    refine ⟨?_, inv_turn h⟩
    cases hp : s.place with
    | waiting => exact view_waiting_iff h hp
    | ticking =>
      rw [Follows, hp]
      exact view_ticking_iff h hp
    | stopped =>
      have hturn : s.turn more = s := by rw [turn, hp]
      rw [step, hturn, Follows, hp]
      refine iff_of_true ?_ trivial
      rw [viewStep, viewTurn, view, hp]

end Session

/-! ## The loop as turns -/

@[simp] theorem lineOf_piece (l : InputLine) : lineOf l.piece = l.text := by
  rw [lineOf, InputLine.piece, List.takeWhile_append_of_pos fun c hc => by
    simpa using List.all_eq_true.mp l.plain c hc]
  simp

theorem running_interactiveCommand {tick : ℤ} {c : Controls} {line : CString}
    (hquit : line ≠ "quit".toList) : (interactiveCommand tick c line).1.running = c.running := by
  unfold interactiveCommand
  simp only [hquit, if_false]
  split_ifs <;> rfl

/-- What the looks of a call find, each with what it reads. -/
def Input.polls : Input → List ℕ → Stdin
  | _, [] => []
  | i, more :: looks =>
    match i.look more with
    | none => none :: i.polls looks
    | some (l, i') => some l.piece :: i'.polls looks

section polls

variable {i i' : Input} {l : InputLine} {more : ℕ} {looks : List ℕ}

theorem Input.polls_none (h : i.look more = none) : i.polls (more :: looks) = none :: i.polls looks := by
  simp only [Input.polls, h]

theorem Input.polls_some (h : i.look more = some (l, i')) :
    i.polls (more :: looks) = some l.piece :: i'.polls looks := by
  simp only [Input.polls, h]

end polls

/-- A call that returns has looked at `stdin` a number of times, each of them a turn. -/
theorem turns_of_processInteractive {tick : ℤ} {fuel : ℕ} {c : Controls} {i : Input} {looks : List ℕ}
    {r : Controls × Stdin × List CString} (hrun : c.running = true)
    (h : processInteractive tick fuel c (i.polls looks) = some r) :
    ∃ taken rest i', looks = taken ++ rest ∧ r.2.1 = i'.polls rest ∧
      taken.foldl Session.turn (.enter c i tick) =
        ⟨r.1, if r.1.running then .ticking else .stopped, i', tick⟩ := by
  induction fuel generalizing c i looks r with
  | zero => cases h
  | succ fuel ih =>
    cases hholds : c.holds with
    | false =>
      rw [processInteractive_of_not_holds _ hholds] at h
      have hr : c.release.running = true := by
        unfold Controls.release
        split_ifs <;> exact hrun
      refine ⟨[], looks, i, rfl, ?_, ?_⟩
      · rw [← Option.some.inj h]
      · rw [← Option.some.inj h, List.foldl_nil, Session.enter, hholds, hr]
        rfl
    | true =>
      have hpause : c.pause.running = true := Controls.pause_rest.2.trans hrun
      have hpaused := Controls.pause_of_holds hholds
      cases looks with
      | nil =>
        obtain ⟨piece, hmem, -⟩ := exists_releases_of_returns hholds h
        cases hmem
      | cons more looks =>
        cases hlook : i.look more with
        | none =>
          rw [Input.polls_none hlook, processInteractive_succ hholds] at h
          obtain ⟨taken, rest, i', rfl, hrest, hturns⟩ := ih hpause h
          have hsame : (Session.enter c i tick).turn more = .enter c.pause i tick := by
            have hstay : c.pause.pause = c.pause := if_neg (by simp [hpaused])
            rw [Session.enter_of_holds hholds, Session.turn_none hlook,
              Session.enter_of_holds (Controls.holds_iff.mpr (Or.inl hpaused)), hstay]
          exact ⟨more :: taken, rest, i', rfl, hrest, by rw [List.foldl_cons, hsame, hturns]⟩
        | some found =>
          obtain ⟨l, i₁⟩ := found
          rw [Input.polls_some hlook] at h
          rw [Session.enter_of_holds hholds]
          by_cases hquit : l.text = "quit".toList
          · rw [processInteractive_succ hholds] at h
            simp only [lineOf_piece, hquit, if_true] at h
            refine ⟨[more], looks, i₁, rfl, ?_, ?_⟩
            · rw [← Option.some.inj h]
            · rw [← Option.some.inj h, List.foldl_cons, List.foldl_nil, Session.turn_quit hlook hquit,
                hquit, interactiveCommand_quit]
              rfl
          · rw [processInteractive_command hholds (by rwa [lineOf_piece]), lineOf_piece] at h
            obtain ⟨q, hq, rfl⟩ := Option.map_eq_some_iff.mp h
            obtain ⟨taken, rest, i', rfl, hrest, hturns⟩ :=
              ih ((running_interactiveCommand hquit).trans hpause) hq
            refine ⟨more :: taken, rest, i', rfl, hrest, ?_⟩
            rw [List.foldl_cons, Session.turn_command hlook hquit]
            exact hturns

/-! ## Runs -/

def sessionRun (events : List SessionEvent) : Session := events.foldl Session.step .start

/-- For every stream of lines, arriving at any points, the program shows what the commands are for
along a whole run exactly where each of its turns can follow them. -/
theorem interactive_follows_iff (events : List SessionEvent) :
    (∀ n ≤ events.length, (sessionRun (events.take n)).view = viewRun (events.take n)) ↔
      ∀ n (hn : n < events.length), (sessionRun (events.take n)).Follows events[n] := by
  have halong := Machine.along_iff (fun s e (h : Session.Inv s) =>
    ⟨(Session.view_step_iff h e).1, fun _ => (Session.view_step_iff h e).2⟩)
    (Session.inv_enter ⟨true, false, 0⟩ ⟨[], []⟩ 0) events
  exact (Machine.view_foldl_iff events).symm.trans halong

/-- `run` lets no tick run. A `pause` that arrives in the first of three ticks is not looked at before
the third is over. Of `run 4294967297` one tick is left. Of two lines that are read together the second
is not seen. -/
theorem interactive_run_ignored :
    let run : InputLine := ⟨"run".toList, by decide, by decide⟩
    let three : InputLine := ⟨"run 3".toList, by decide, by decide⟩
    let pause : InputLine := ⟨"pause".toList, by decide, by decide⟩
    let many : InputLine := ⟨"run 4294967297".toList, by decide, by decide⟩
    let step : InputLine := ⟨"step".toList, by decide, by decide⟩
    ((sessionRun [.arrive run, .turn 0]).view.mode = .waiting ∧
      (viewRun [.arrive run, .turn 0]).mode = .ticking .unlimited) ∧
    ((sessionRun [.arrive three, .turn 0, .arrive pause, .turn 0, .turn 0]).view.mode =
        .ticking (.ticks 0) ∧
      (viewRun [.arrive three, .turn 0, .arrive pause, .turn 0, .turn 0]).mode = .waiting) ∧
    ((sessionRun [.arrive many, .turn 0]).view.mode = .ticking (.ticks 0) ∧
      (viewRun [.arrive many, .turn 0]).mode = .ticking (.ticks 4294967296)) ∧
    ((sessionRun [.arrive step, .arrive step, .turn 1, .turn 0, .turn 0, .turn 0]).tick = 1 ∧
      (viewRun [.arrive step, .arrive step, .turn 1, .turn 0, .turn 0, .turn 0]).tick = 2) ∧
    ¬∀ n ≤ 2, (sessionRun ([.arrive run, .turn 0].take n)).view =
      viewRun ([.arrive run, .turn 0].take n) := by
  intro run three pause many step
  refine ⟨⟨rfl, rfl⟩, ⟨rfl, rfl⟩, ⟨by decide +kernel, by decide +kernel⟩, ⟨rfl, rfl⟩, fun h => ?_⟩
  have hmode : Mode.waiting = .ticking .unlimited := congrArg View.mode (h 2 le_rfl)
  cases hmode

end FleetOS
