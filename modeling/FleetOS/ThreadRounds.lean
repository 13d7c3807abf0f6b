import FleetOS.Gauges
import FleetOS.Runs

/-!
# Rounds of a thread

In a tick the kernel looks up the command of the running thread and, for most commands, lets it
execute. C leaves two things undefined there, a remainder by zero and an index outside the
commands that are stored. `threadRound` is one such round with both as a `Fault`; where there is
none it is the `threadExecute` of the model (`threadRound_eq_ok`).

A thread without commands is taken to compute, but `thread_execute` still takes the remainder by
its `command_count`. So the rounds of a new thread are without a fault exactly if its count is not
zero, or it has no burst, or there is no round, and then the program counter and the burst are what
the number of rounds says (`rounds_safe_iff`). In a run of the kernel no round of a thread has a fault,
as long as a thread without commands has nothing to run (`threadRound_machineRun`).
-/

namespace FleetOS

open Machine

/-! ## Faults -/

inductive Fault
  | divisionByZero
  | badIndex
  deriving DecidableEq, Repr

/-- `a % b`. -/
def checkedRem (a b : ℤ) : Except Fault ℤ :=
  if b = 0 then .error .divisionByZero else .ok (a.tmod b)

/-- `cmds[i]`. -/
def checkedCommand (cmds : List CommandType) (i : ℤ) : Except Fault CommandType :=
  if i < 0 then .error .badIndex
  else match cmds[i.toNat]? with
    | none => .error .badIndex
    | some c => .ok c

/-- `thread_create` reads as many entries of the array as it stores. -/
def threadCreateChecked (fresh : TCB) (tid ownerPid : ℤ) (cmds : List CommandType)
    (cmdCount burst : ℤ) : Except Fault TCB :=
  if min cmdCount maxCommands ≤ cmds.length then
    .ok (threadCreate fresh tid ownerPid cmds cmdCount burst)
  else .error .badIndex

def threadCurrentCommandChecked (t : TCB) : Except Fault CommandType :=
  if t.commandCount ≤ 0 then .ok .compute
  else (checkedRem t.localPc t.commandCount).bind fun i => checkedCommand t.commands i

def threadExecuteChecked (t : TCB) : Except Fault TCB :=
  if t.state ≠ .running then .ok t
  else if t.burstRemaining ≤ 0 then .ok t
  else if t.commandTicksRemaining - 1 ≤ 0 then
    (checkedRem (t.localPc + 1) t.commandCount).map fun pc =>
      { t with
        localPc := pc
        commandTicksRemaining := 1
        burstRemaining := t.burstRemaining - 1 }
  else
    .ok { t with
      commandTicksRemaining := t.commandTicksRemaining - 1
      burstRemaining := t.burstRemaining - 1 }

/-- `thread_current_command` and then `thread_execute`. -/
def threadRound (t : TCB) : Except Fault TCB :=
  (threadCurrentCommandChecked t).bind fun _ => threadExecuteChecked t

/-! ## Rounds without a fault -/

section rounds

variable {t t₀ : TCB}

theorem checkedRem_eq_ok {a b : ℤ} (hb : b ≠ 0) : checkedRem a b = .ok (a.tmod b) := if_neg hb

/-- The index that is looked up is that of a stored command. -/
def TCB.IndexStored (t : TCB) : Prop :=
  0 < t.commandCount → 0 ≤ t.localPc.tmod t.commandCount ∧
    t.localPc.tmod t.commandCount < t.commands.length

theorem threadCurrentCommandChecked_eq_ok (h : t.IndexStored) :
    threadCurrentCommandChecked t = .ok (threadCurrentCommand t) := by
  unfold threadCurrentCommandChecked threadCurrentCommand
  split_ifs with hcount
  · rfl
  · obtain ⟨hnonneg, hlt⟩ := h (not_le.mp hcount)
    have hlt' : (t.localPc.tmod t.commandCount).toNat < t.commands.length := by omega
    rw [checkedRem_eq_ok (by omega)]
    change checkedCommand t.commands (t.localPc.tmod t.commandCount) = _
    unfold checkedCommand
    rw [if_neg (not_lt.mpr hnonneg), List.getD_eq_getElem?_getD, List.getElem?_eq_getElem hlt']
    rfl

theorem threadExecuteChecked_eq_ok (h : t.commandCount ≠ 0 ∨ t.burstRemaining ≤ 0) :
    threadExecuteChecked t = .ok (threadExecute t) := by
  unfold threadExecuteChecked threadExecute
  split_ifs with hstate hburst hticks
  · rfl
  · rfl
  · rw [checkedRem_eq_ok (h.resolve_right hburst)]
    rfl
  · rfl

theorem threadRound_eq_ok (hindex : t.IndexStored)
    (h : t.commandCount ≠ 0 ∨ t.burstRemaining ≤ 0) : threadRound t = .ok (threadExecute t) := by
  rw [threadRound, threadCurrentCommandChecked_eq_ok hindex]
  exact threadExecuteChecked_eq_ok h

/-! ## What the rounds do -/

/-- The units of the burst that `n` rounds use up. -/
def burstSpent (burst : ℤ) (n : ℕ) : ℤ := min n (max burst 0)

theorem burstSpent_nonneg (burst : ℤ) (n : ℕ) : 0 ≤ burstSpent burst n := by
  unfold burstSpent
  omega

/-- The thread `t₀`, running, after `n` rounds. -/
structure AfterRounds (t₀ t : TCB) (n : ℕ) : Prop where
  state : t.state = .running
  ident : t.ident = t₀.ident
  ticks : t.commandTicksRemaining = 1
  burst : t.burstRemaining = t₀.burstRemaining - burstSpent t₀.burstRemaining n
  pc : t.localPc = (burstSpent t₀.burstRemaining n).tmod t₀.commandCount

theorem threadExecute_of_no_burst (h : t.burstRemaining ≤ 0) : threadExecute t = t := by
  unfold threadExecute
  rw [if_pos h, ite_self]

theorem threadExecute_eq_advance (hstate : t.state = .running) (hburst : 0 < t.burstRemaining)
    (hticks : t.commandTicksRemaining = 1) : threadExecute t = t.advance := by
  unfold threadExecute
  rw [if_neg (not_not.mpr hstate), if_neg (not_le.mpr hburst), if_pos (by omega)]
  rfl

theorem tmod_succ {x c : ℤ} (hx : 0 ≤ x) (hc : c ≠ 0) : (x.tmod c + 1).tmod c = (x + 1).tmod c := by
  have hrem : 0 ≤ x % c := Int.emod_nonneg x hc
  rw [Int.tmod_eq_emod_of_nonneg hx, Int.tmod_eq_emod_of_nonneg (by omega),
    Int.tmod_eq_emod_of_nonneg (by omega), Int.emod_add_emod]

theorem AfterRounds.same_commands {n : ℕ} (h : AfterRounds t₀ t n) :
    t.commands = t₀.commands ∧ t.commandCount = t₀.commandCount := by
  have hident := h.ident
  simp only [TCB.ident, Prod.mk.injEq] at hident
  exact ⟨hident.2.2.1, hident.2.2.2.1⟩

/-- One round uses up one unit of the burst, or there is none left. -/
theorem AfterRounds.succ {n : ℕ} (h : AfterRounds t₀ t n)
    (hc : t₀.commandCount ≠ 0 ∨ t₀.burstRemaining ≤ 0) : AfterRounds t₀ (threadExecute t) (n + 1) := by
  have hburst := h.burst
  by_cases hleft : t.burstRemaining ≤ 0
  · have hsame : burstSpent t₀.burstRemaining (n + 1) = burstSpent t₀.burstRemaining n := by
      unfold burstSpent at hburst ⊢
      omega
    rw [threadExecute_of_no_burst hleft]
    exact ⟨h.state, h.ident, h.ticks, hsame ▸ h.burst, hsame ▸ h.pc⟩
  · have hnext : burstSpent t₀.burstRemaining (n + 1) = burstSpent t₀.burstRemaining n + 1 := by
      unfold burstSpent at hburst ⊢
      omega
    have hused := burstSpent_nonneg t₀.burstRemaining n
    have hcount : t₀.commandCount ≠ 0 := hc.resolve_right fun hle => hleft (by omega)
    rw [threadExecute_eq_advance h.state (not_le.mp hleft) h.ticks]
    refine ⟨h.state, h.ident, rfl, ?_, ?_⟩
    · change t.burstRemaining - 1 = _
      omega
    · change (t.localPc + 1).tmod t.commandCount = _
      rw [h.same_commands.2, h.pc, hnext, tmod_succ hused hcount]

/-- A thread as it is made, once it runs. -/
structure Started (t : TCB) : Prop where
  state : t.state = .running
  pc : t.localPc = 0
  ticks : t.commandTicksRemaining = 1
  stored : t.commands.length = t.commandCount.toNat

theorem Started.after (hm : Started t) (hc : t.commandCount ≠ 0 ∨ t.burstRemaining ≤ 0) (n : ℕ) :
    AfterRounds t (threadExecute^[n] t) n := by
  induction n with
  | zero =>
    have hnone : burstSpent t.burstRemaining 0 = 0 := by
      unfold burstSpent
      omega
    refine ⟨hm.state, rfl, hm.ticks, ?_, ?_⟩ <;> rw [hnone]
    · exact (Int.sub_zero _).symm
    · exact hm.pc.trans (Int.zero_tmod _).symm
  | succ n ih =>
    rw [Function.iterate_succ_apply']
    exact ih.succ hc

theorem AfterRounds.localPc_nonneg {n : ℕ} (h : AfterRounds t₀ t n) : 0 ≤ t.localPc := by
  rw [h.pc]
  exact Int.tmod_nonneg _ (burstSpent_nonneg _ n)

theorem AfterRounds.indexStored {n : ℕ} (h : AfterRounds t₀ t n) (hm : Started t₀) :
    t.IndexStored := by
  intro hpos
  obtain ⟨hcmds, hcount⟩ := h.same_commands
  have hlen : (t.commands.length : ℤ) = t.commandCount := by
    rw [hcmds, hm.stored, ← hcount, Int.toNat_of_nonneg hpos.le]
  refine ⟨Int.tmod_nonneg _ h.localPc_nonneg, ?_⟩
  rw [hlen]
  exact Int.tmod_lt_of_pos _ hpos

/-- While there is a burst left, `local_pc` is below the burst that the thread began with, so that
`local_pc + 1` is an `int` if the burst is one. -/
theorem AfterRounds.localPc_lt {n : ℕ} (h : AfterRounds t₀ t n) (hleft : 0 < t.burstRemaining) :
    0 ≤ t.localPc ∧ t.localPc < t₀.burstRemaining := by
  have hburst := h.burst
  have hused := burstSpent_nonneg t₀.burstRemaining n
  have hpc := h.localPc_nonneg
  have hle : t.localPc.natAbs ≤ (burstSpent t₀.burstRemaining n).natAbs := by
    rw [h.pc, Int.natAbs_tmod]
    exact Nat.mod_le _ _
  omega

/-- All rounds are without a fault. -/
theorem Started.rounds (hm : Started t) (hc : t.commandCount ≠ 0 ∨ t.burstRemaining ≤ 0) (n : ℕ) :
    tryRun threadRound n t = .ok (threadExecute^[n] t) := by
  refine tryRun_eq_ok fun k _ => ?_
  have ha := hm.after hc k
  refine threadRound_eq_ok (ha.indexStored hm) ?_
  rw [ha.same_commands.2]
  refine hc.imp_right fun hle => ?_
  rw [ha.burst]
  unfold burstSpent
  omega

/-- `n` rounds are without a fault, and afterwards the burst and, if there are commands, the program
counter are what the number of rounds says. -/
def RoundsSafe (t : TCB) (burst : ℤ) (n : ℕ) : Prop :=
  ∃ t', tryRun threadRound n t = .ok t' ∧
    t'.burstRemaining = burst - min (n : ℤ) (max burst 0) ∧
    (0 < t.commandCount → t'.localPc = min (n : ℤ) (max burst 0) % t.commandCount)

theorem Started.roundsSafe (hm : Started t) (hc : t.commandCount ≠ 0 ∨ t.burstRemaining ≤ 0)
    (n : ℕ) : RoundsSafe t t.burstRemaining n := by
  have ha := hm.after hc n
  refine ⟨_, hm.rounds hc n, ha.burst, fun _ => ?_⟩
  rw [ha.pc, Int.tmod_eq_emod_of_nonneg (burstSpent_nonneg _ n)]
  rfl

theorem Started.roundsSafe_zero (hm : Started t) : RoundsSafe t t.burstRemaining 0 := by
  have hnone : min ((0 : ℕ) : ℤ) (max t.burstRemaining 0) = 0 := by omega
  refine ⟨t, rfl, ?_, fun _ => ?_⟩ <;> rw [hnone]
  · exact (Int.sub_zero _).symm
  · exact hm.pc.trans (Int.zero_emod _).symm

/-- Without commands the first round takes the remainder by zero. -/
theorem Started.divides_by_zero (hm : Started t) (hcount : t.commandCount = 0)
    (hburst : 0 < t.burstRemaining) (n : ℕ) :
    tryRun threadRound (n + 1) t = .error .divisionByZero := by
  refine tryRun_eq_error ?_ n
  have hcommand : threadCurrentCommandChecked t = .ok .compute := if_pos hcount.le
  rw [threadRound, hcommand]
  change threadExecuteChecked t = _
  unfold threadExecuteChecked
  rw [if_neg (not_not.mpr hm.state), if_neg (not_le.mpr hburst), if_pos (by have := hm.ticks; omega),
    hcount]
  rfl

/-- A new thread, once it runs. -/
theorem started_threadCreate {fresh : TCB} {tid ownerPid : ℤ} {cmds : List CommandType}
    {cmdCount burst : ℤ} (hmade : threadCreateChecked fresh tid ownerPid cmds cmdCount burst = .ok t) :
    Started { t with state := .running } ∧ t.commandCount = min cmdCount maxCommands ∧
      t.burstRemaining = burst := by
  unfold threadCreateChecked at hmade
  split_ifs at hmade with hlen
  cases hmade
  have hcount : (threadCreate fresh tid ownerPid cmds cmdCount burst).commandCount =
      min cmdCount maxCommands := by
    unfold threadCreate
    dsimp only
    split_ifs <;> omega
  refine ⟨⟨rfl, rfl, rfl, ?_⟩, hcount, rfl⟩
  change (cmds.take (threadCreate fresh tid ownerPid cmds cmdCount burst).commandCount.toNat).length =
    (threadCreate fresh tid ownerPid cmds cmdCount burst).commandCount.toNat
  rw [hcount, List.length_take]
  omega

/-- A new thread that is kept running goes through its rounds safely exactly if it has not zero
commands, or no burst, or there is no round. -/
theorem rounds_safe_iff {fresh t : TCB} {tid ownerPid : ℤ} {cmds : List CommandType}
    {cmdCount burst : ℤ} (hmade : threadCreateChecked fresh tid ownerPid cmds cmdCount burst = .ok t)
    (n : ℕ) : RoundsSafe { t with state := .running } burst n ↔
      cmdCount ≠ 0 ∨ burst ≤ 0 ∨ n = 0 := by
  obtain ⟨hs, hcount, rfl⟩ := started_threadCreate hmade
  have hmax : (maxCommands : ℤ) = 32 := rfl
  constructor
  · rintro ⟨t', hok, -⟩
    by_contra hbad
    push Not at hbad
    obtain ⟨hzero, hpos, hn⟩ := hbad
    obtain ⟨m, rfl⟩ := Nat.exists_eq_succ_of_ne_zero hn
    rw [hs.divides_by_zero (by dsimp only; omega) (by dsimp only; omega) m] at hok
    cases hok
  · intro h
    by_cases hn : n = 0
    · rw [hn]
      exact hs.roundsSafe_zero
    · have hc : t.commandCount ≠ 0 ∨ t.burstRemaining ≤ 0 := by omega
      exact hs.roundsSafe hc n

end rounds

/-- A count above the size of the array in the TCB, and more rounds than the burst has units. -/
theorem rounds_safe_forty :
    let cmds := List.replicate 40 CommandType.ioWrite
    RoundsSafe { threadCreate default 1 1 cmds 40 100 with state := .running } 100 120 := by
  intro cmds
  have hmade : threadCreateChecked default 1 1 cmds 40 100 =
      .ok (threadCreate default 1 1 cmds 40 100) := rfl
  exact (rounds_safe_iff hmade 120).mpr (Or.inl (by decide))

/-- A thread without commands is taken to compute, and then divides by zero. -/
theorem rounds_divide_by_zero :
    let t := { threadCreate default 1 1 [] 0 1 with state := .running }
    threadCreateChecked default 1 1 [] 0 1 = .ok (threadCreate default 1 1 [] 0 1) ∧
      threadCurrentCommandChecked t = .ok .compute ∧
      threadExecuteChecked t = .error .divisionByZero ∧ ¬RoundsSafe t 1 1 := by
  intro t
  have hexecute : threadExecuteChecked t = .error .divisionByZero := rfl
  refine ⟨rfl, rfl, hexecute, ?_⟩
  rintro ⟨t', hok, -⟩
  have hround : tryRun threadRound 1 t = .error .divisionByZero := hexecute
  rw [hround] at hok
  cases hok

/-! ## Runs -/

/-- No round of the thread has a fault. -/
structure TCB.Faultless (c : TCB) : Prop where
  stored : c.commandCount ≤ c.commands.length
  pc : 0 ≤ c.localPc
  stocked : c.commandCount ≠ 0 ∨ c.burstRemaining ≤ 0

namespace TCB.Faultless

variable {c c' : TCB}

theorem threadRound_eq (h : c.Faultless) : threadRound c = .ok (threadExecute c) := by
  refine threadRound_eq_ok (fun hcount => ⟨Int.tmod_nonneg _ h.pc, ?_⟩) h.stocked
  exact (Int.tmod_lt_of_pos _ hcount).trans_le h.stored

theorem of_progress (h : c.Faultless) (hp : c'.progress = c.progress) : c'.Faultless := by
  simp only [TCB.progress, Prod.mk.injEq] at hp
  obtain ⟨hcommands, hcount, hpc, -, hburst⟩ := hp
  refine ⟨?_, hpc ▸ h.pc, ?_⟩
  · rw [hcommands, hcount]
    exact h.stored
  · rw [hcount, hburst]
    exact h.stocked

theorem nextPc (h : c.Faultless) : 0 ≤ c.nextPc :=
  Int.tmod_nonneg _ (Int.add_nonneg h.pc zero_le_one)

theorem spent (h : c.Faultless) : c.commandCount ≠ 0 ∨ c.burstRemaining - 1 ≤ 0 :=
  h.stocked.imp_right fun hburst => by omega

theorem advance (h : c.Faultless) : c.advance.Faultless := ⟨h.stored, h.nextPc, h.spent⟩

theorem threadExecute (h : c.Faultless) : (threadExecute c).Faultless := by
  unfold FleetOS.threadExecute
  split_ifs
  · exact h
  · exact h
  · exact h.advance
  · exact ⟨h.stored, h.pc, h.spent⟩

end TCB.Faultless

theorem faultless_machineStep {m : Kernel × Phase} (ht : MachineTables m) {t : ℕ}
    (h : (m.1.tcb t).Faultless) : ((machineStep m).1.tcb t).Faultless := by
  cases progressStep ht t with
  | same hp => exact h.of_progress hp
  | executed _ _ hx =>
    cases hx with
    | executed he => exact he ▸ h.threadExecute
    | acquired _ _ he => exact he ▸ h.advance
    | wrote _ hp => exact h.advance.of_progress hp
    | refused hp => exact h.of_progress hp
  | served _ hp => exact h.advance.of_progress hp

theorem faultless_kernelInit (k₀ : Kernel) (cfg : KernelConfig) {w : List ProcessSpec}
    (hw : ValidWorkload w) :
    ∀ t < (kernelInit k₀ cfg w).threadCount, ((kernelInit k₀ cfg w).tcb t).Faultless := by
  refine tcbs_kernelInit (Q := TCB.Faultless) (fun hp h => h.of_progress hp)
    (fun spec hspec s hs c fresh => ?_) k₀ cfg
  have hmax : maxCommands = 32 := rfl
  refine ⟨?_, le_rfl, ?_⟩
  · dsimp only [bootTcb, threadCreate]
    rw [List.length_take]
    split_ifs <;> omega
  · by_cases hnone : s.commands = []
    · exact Or.inr (hw.commands spec hspec s hs hnone)
    · have hpos : 0 < s.commands.length := List.length_pos_iff.mpr hnone
      refine Or.inl ?_
      dsimp only [bootTcb, threadCreate]
      split_ifs <;> omega

/-- In a run the command that is looked up is always one of the thread's own, and the remainder that
`thread_execute` takes is by no zero. -/
theorem threadRound_machineRun (k₀ : Kernel) (cfg : KernelConfig) {w : List ProcessSpec}
    (hw : ValidWorkload w) (n : ℕ) :
    let k := (machineRun (kernelInit k₀ cfg w) n).1
    ∀ t < k.threadCount, threadRound (k.tcb t) = .ok (threadExecute (k.tcb t)) := by
  have hrun : ∀ t < (machineRun (kernelInit k₀ cfg w) n).1.threadCount,
      ((machineRun (kernelInit k₀ cfg w) n).1.tcb t).Faultless := by
    induction n with
    | zero => exact faultless_kernelInit k₀ cfg hw
    | succ n ih =>
      have htab := tables_machineRun k₀ cfg hw n
      rw [machineRun_succ, (tableStep htab).threadCount]
      exact fun t ht => faultless_machineStep htab (ih t ht)
  exact fun t ht => (hrun t ht).threadRound_eq

end FleetOS
