import DHCPServer.Framework.FirstMatch
import DHCPServer.Transaction.Timer

namespace DHCPServer

section Update

variable {now : UInt32} {t : Timer}

/-- An update of a running timer with time left, when the time it takes off may be none. -/
theorem timerUpdate_running (hr : t.isRunning = true) (hpos : 0 < t.rtime.toNat) :
    timerUpdate now t =
      if t.rtime ≤ now - t.ltime then
        (true, { t with ltime := now, rtime := t.dtime, isRunning := t.type == .repeat })
      else (false, { t with ltime := now, rtime := t.rtime - (now - t.ltime) }) := by
  rw [timerUpdate, hr]
  simp only [Bool.not_true, Bool.false_eq_true, if_false]
  by_cases hd : now - t.ltime = 0
  · have hnow : now = t.ltime := by
      rw [← UInt32.sub_add_cancel now t.ltime, hd, UInt32.zero_add]
    have hnot : ¬t.rtime ≤ now - t.ltime := by
      rw [hd, UInt32.le_iff_toNat_le, UInt32.toNat_zero]
      omega
    rw [if_pos hd, if_neg hnot, hd, UInt32.sub_zero, hnow]
    rw [← hr]
  · rw [if_neg hd]

end Update

/-- A call for a timer, with the value of `time` it reads. -/
inductive TimerCall
  | start (time : Nat)
  | stop
  | reset (time : Nat)
  | update (time : Nat)

/-- A timer with the last reading of the clock, and the sum of the steps forward that the clock took
from reading to reading while the timer ran, since the remaining time was set. -/
structure TimerWatch where
  timer : Timer
  last : Nat
  forward : Nat

namespace TimerWatch

variable (w : TimerWatch)

def new (time : Nat) (type : TimerType) (dtime : UInt32) (isRunning : Bool) : TimerWatch :=
  ⟨timerNew (UInt32.ofNat time) type dtime isRunning, time, 0⟩

/-- The steps forward up to a reading. -/
def forwardAt (time : Nat) : Nat := w.forward + (time - w.last)

/-- A call; readings are cut to 32 bits. A stopped timer that is updated does not read the clock. -/
def call : TimerCall → TimerWatch
  | .start time => ⟨timerStart (UInt32.ofNat time) w.timer, time, w.forward⟩
  | .stop => ⟨timerStop w.timer, w.last, w.forward⟩
  | .reset time => ⟨timerReset (UInt32.ofNat time) w.timer, time, 0⟩
  | .update time =>
    let (fires, timer) := timerUpdate (UInt32.ofNat time) w.timer
    if w.timer.isRunning then ⟨timer, time, if fires then 0 else w.forwardAt time⟩
    else ⟨timer, w.last, w.forward⟩

def run (calls : List TimerCall) : TimerWatch := calls.foldl call w

/-- What holds of the timer and a reading at every update of the running timer in a run. -/
def AtUpdates (calls : List TimerCall) (P : TimerWatch → Nat → Prop) : Prop :=
  ∀ before time after, calls = before ++ .update time :: after →
    (w.run before).timer.isRunning = true → P (w.run before) time

/-- The callback is called when the clock has stepped forward by the time of the timer at least, and
the elapsed time is not more than the clock's step forward. -/
def NotEarly (time : Nat) : Prop :=
  ((timerUpdate (UInt32.ofNat time) w.timer).1 = true → w.timer.dtime.toNat ≤ w.forwardAt time) ∧
    (UInt32.ofNat time - w.timer.ltime).toNat ≤ time - w.last

/-- The clock has not stepped back since the last reading, except by a multiple of 2^32 seconds. -/
def NotBack (time : Nat) : Prop := time < w.last → (w.last - time) % 2 ^ 32 = 0

/-- The forward steps and the remaining time make up the time of the timer. -/
structure Counts : Prop where
  last : w.timer.ltime = UInt32.ofNat w.last
  positive : 0 < w.timer.rtime.toNat
  whole : w.timer.dtime.toNat ≤ w.forward + w.timer.rtime.toNat
  period : 0 < w.timer.dtime.toNat

variable {w} {time : Nat} {calls : List TimerCall}

/-- The 32-bit difference of two readings is at most the step forward where there is no step back. -/
theorem elapsed_le_iff (h : w.Counts) :
    (UInt32.ofNat time - w.timer.ltime).toNat ≤ time - w.last ↔ w.NotBack time := by
  rw [h.last, UInt32.toNat_sub, UInt32.toNat_ofNat', UInt32.toNat_ofNat', NotBack]
  omega

theorem Counts.start (h : w.Counts) : (w.call (.start time)).Counts :=
  ⟨rfl, h.positive, h.whole, h.period⟩

theorem Counts.stop (h : w.Counts) : (w.call .stop).Counts :=
  ⟨h.last, h.positive, h.whole, h.period⟩

theorem Counts.reset (h : w.Counts) : (w.call (.reset time)).Counts :=
  ⟨rfl, h.period, by simp [call, timerReset], h.period⟩

theorem Counts.update (h : w.Counts) (hback : w.timer.isRunning = true → w.NotBack time) :
    (w.call (.update time)).Counts := by
  rw [call]
  cases hr : w.timer.isRunning with
  | false =>
    rw [timerUpdate, hr]
    exact ⟨h.last, h.positive, h.whole, h.period⟩
  | true =>
    have helapsed := (elapsed_le_iff h).mpr (hback hr)
    rw [timerUpdate_running hr h.positive]
    by_cases hfire : w.timer.rtime ≤ UInt32.ofNat time - w.timer.ltime
    · rw [if_pos hfire]
      exact ⟨rfl, h.period, by simp, h.period⟩
    · rw [if_neg hfire]
      rw [UInt32.le_iff_toNat_le, Nat.not_le] at hfire
      have hleft : (w.timer.rtime - (UInt32.ofNat time - w.timer.ltime)).toNat =
          w.timer.rtime.toNat - (UInt32.ofNat time - w.timer.ltime).toNat :=
        UInt32.toNat_sub_of_le _ _ (UInt32.le_iff_toNat_le.mpr hfire.le)
      have hwhole := h.whole
      refine ⟨rfl, ?_, ?_, h.period⟩
      · simp only [if_true, hleft]
        omega
      · simp only [if_true, Bool.false_eq_true, if_false, forwardAt, hleft]
        omega

/-- The updates of a longer run are those of the run before and perhaps the last call. -/
theorem atUpdates_concat {P : TimerWatch → Nat → Prop} (calls : List TimerCall) (c : TimerCall) :
    w.AtUpdates (calls ++ [c]) P ↔ w.AtUpdates calls P ∧
      ∀ time, c = .update time → (w.run calls).timer.isRunning = true → P (w.run calls) time := by
  constructor
  · intro h
    refine ⟨?_, ?_⟩
    · intro before time after hsplit
      exact h before time (after ++ [c]) (by simp [hsplit])
    · rintro time rfl
      exact h calls time [] rfl
  · rintro ⟨h, hlast⟩ before time after hsplit
    rcases concat_eq_split_iff.mp hsplit with ⟨rfl, hc, -⟩ | ⟨after, -, hcalls⟩
    · exact hlast time hc
    · exact h before time after hcalls

theorem run_concat (calls : List TimerCall) (c : TimerCall) :
    w.run (calls ++ [c]) = (w.run calls).call c := List.foldl_append ..

/-- Behind a run without a step back the steps and the remaining time add up. -/
theorem Counts.run (h : w.Counts) (hback : w.AtUpdates calls NotBack) : (w.run calls).Counts := by
  induction calls using List.reverseRecOn with
  | nil => exact h
  | append_singleton calls c ih =>
    obtain ⟨hbefore, hlast⟩ := (atUpdates_concat calls c).mp hback
    rw [run_concat]
    cases c with
    | start time => exact (ih hbefore).start
    | stop => exact (ih hbefore).stop
    | reset time => exact (ih hbefore).reset
    | update time => exact (ih hbefore).update (hlast time rfl)

theorem Counts.notEarly (h : w.Counts) (hr : w.timer.isRunning = true) (hback : w.NotBack time) :
    w.NotEarly time := by
  have helapsed := (elapsed_le_iff h).mpr hback
  refine ⟨?_, helapsed⟩
  intro hfire
  rw [timerUpdate_running hr h.positive] at hfire
  split at hfire
  · rename_i hle
    rw [UInt32.le_iff_toNat_le] at hle
    have hwhole := h.whole
    rw [forwardAt]
    omega
  · cases hfire

/-- A run is never early where the clock does not step back, and only there. -/
theorem Counts.notEarly_iff (h : w.Counts) (calls : List TimerCall) :
    w.AtUpdates calls NotEarly ↔ w.AtUpdates calls NotBack := by
  induction calls using List.reverseRecOn with
  | nil =>
    simp [AtUpdates]
  | append_singleton calls c ih =>
    rw [atUpdates_concat, atUpdates_concat, ih]
    apply and_congr_right
    intro hback
    have hcounts := h.run hback
    constructor
    · intro hearly time hc hr
      exact (elapsed_le_iff hcounts).mp (hearly time hc hr).2
    · intro hlast time hc hr
      exact hcounts.notEarly hr (hlast time hc hr)

theorem counts_new (time : Nat) (type : TimerType) {dtime : UInt32} (isRunning : Bool)
    (hd : 1 ≤ dtime.toNat) : (new time type dtime isRunning).Counts :=
  ⟨rfl, hd, by simp [new, timerNew], hd⟩

end TimerWatch

open TimerWatch in
/-- A timer is never early in exactly the runs in which no update of the running timer reads a clock
that has stepped back. -/
theorem timer_never_early_iff (time : Nat) (type : TimerType) (dtime : UInt32) (isRunning : Bool)
    (hd : 1 ≤ dtime.toNat) (calls : List TimerCall) :
    (new time type dtime isRunning).AtUpdates calls NotEarly ↔
      (new time type dtime isRunning).AtUpdates calls NotBack :=
  (counts_new time type isRunning hd).notEarly_iff calls

open TimerWatch in
/-- A clock that is set back by a second ends a minute at once. -/
theorem timer_early_step_back :
    ¬(new 1000 .once 60 true).AtUpdates [.update 999] NotEarly := by
  intro h
  have hearly := (h [] 999 [] rfl rfl).1 (by decide)
  exact absurd hearly (by decide)

open TimerWatch in
theorem timer_never_early_minute :
    (new 1000 .once 60 true).AtUpdates [.update 1060] NotEarly := by
  apply (timer_never_early_iff 1000 .once 60 true (by decide) [.update 1060]).mpr
  rw [← List.nil_append [TimerCall.update 1060], atUpdates_concat]
  refine ⟨by simp [AtUpdates], ?_⟩
  rintro time hc -
  cases hc
  exact fun hback => absurd hback (by decide)

/-- Updates one after another, with what each says about the callback. -/
def timerUpdates (t : Timer) : List UInt32 → List Bool × Timer
  | [] => ([], t)
  | time :: times =>
    let (fires, t) := timerUpdate time t
    let (calls, t) := timerUpdates t times
    (fires :: calls, t)

/-- The updates that end a period of `dtime` seconds: the first at or behind its end. The period
starts at `start`, and a timer that repeats starts the next one with that update. -/
def deadlineCalls (repeats : Bool) (dtime : Nat) : Option Nat → List Nat → List Bool
  | _, [] => []
  | none, _ :: times => false :: deadlineCalls repeats dtime none times
  | some start, time :: times =>
    if start + dtime ≤ time then
      true :: deadlineCalls repeats dtime (if repeats then some time else none) times
    else false :: deadlineCalls repeats dtime (some start) times

/-- A running timer in the period that starts at `start`: the last reading and the remaining time
make up the end of the period. -/
structure Timer.Armed (t : Timer) (start : UInt32) : Prop where
  running : t.isRunning = true
  positive : 0 < t.rtime.toNat
  deadline : t.ltime.toNat + t.rtime.toNat = start.toNat + t.dtime.toNat
  period : 0 < t.dtime.toNat

section Periods

variable {t : Timer} {start time : UInt32} {times : List UInt32}

theorem armed_of_fresh (hr : t.isRunning = true) (hl : t.ltime = start) (hd : 1 ≤ t.dtime.toNat)
    (hf : t.rtime = t.dtime) : t.Armed start :=
  ⟨hr, by rw [hf]; exact hd, by rw [hl, hf], hd⟩

theorem Timer.Armed.rtime_le_iff (h : t.Armed start) (hle : t.ltime ≤ time) :
    t.rtime ≤ time - t.ltime ↔ start.toNat + t.dtime.toNat ≤ time.toNat := by
  have hdeadline := h.deadline
  have hnat := UInt32.le_iff_toNat_le.mp hle
  rw [UInt32.le_iff_toNat_le, UInt32.toNat_sub_of_le _ _ hle]
  omega

/-- An update behind the end of the period calls the callback. -/
theorem Timer.Armed.expires (h : t.Armed start) (hle : t.ltime ≤ time)
    (hend : start.toNat + t.dtime.toNat ≤ time.toNat) :
    timerUpdate time t =
      (true, { t with ltime := time, rtime := t.dtime, isRunning := t.type == .repeat }) := by
  rw [timerUpdate_running h.running h.positive, if_pos ((h.rtime_le_iff hle).mpr hend)]

/-- An update before the end of the period leaves the timer in it. -/
theorem Timer.Armed.counts (h : t.Armed start) (hle : t.ltime ≤ time)
    (hend : ¬start.toNat + t.dtime.toNat ≤ time.toNat) :
    ∃ t', timerUpdate time t = (false, t') ∧ t'.Armed start ∧ t'.ltime = time ∧
      t'.dtime = t.dtime ∧ t'.type = t.type := by
  have hnot := mt (h.rtime_le_iff hle).mp hend
  have hdeadline := h.deadline
  have hnat := UInt32.le_iff_toNat_le.mp hle
  have hleft : (t.rtime - (time - t.ltime)).toNat =
      t.rtime.toNat - (time.toNat - t.ltime.toNat) := by
    rw [UInt32.le_iff_toNat_le, UInt32.toNat_sub_of_le _ _ hle, Nat.not_le] at hnot
    rw [UInt32.toNat_sub_of_le, UInt32.toNat_sub_of_le _ _ hle]
    rw [UInt32.le_iff_toNat_le, UInt32.toNat_sub_of_le _ _ hle]
    omega
  refine ⟨{ t with ltime := time, rtime := t.rtime - (time - t.ltime) }, ?_,
    ⟨h.running, ?_, ?_, h.period⟩, rfl, rfl, rfl⟩
  · rw [timerUpdate_running h.running h.positive, if_neg hnot]
  · dsimp only
    omega
  · dsimp only
    omega

theorem timerUpdates_stopped (h : t.isRunning = false) (times : List UInt32) :
    timerUpdates t times = (times.map fun _ => false, t) := by
  have hstep (time : UInt32) : timerUpdate time t = (false, t) := by
    rw [timerUpdate, h]
    rfl
  induction times with
  | nil => rfl
  | cons time times ih => simp [timerUpdates, hstep, ih]

theorem deadlineCalls_none (repeats : Bool) (dtime : Nat) (times : List UInt32) :
    deadlineCalls repeats dtime none (times.map UInt32.toNat) = times.map fun _ => false := by
  induction times with
  | nil => rfl
  | cons time times ih => rw [List.map_cons, deadlineCalls, ih, List.map_cons]

/-- On a clock that does not step back the callbacks are those at the ends of the periods. -/
theorem Timer.Armed.calls (h : t.Armed start) (hmono : (t.ltime :: times).Pairwise (· ≤ ·)) :
    (timerUpdates t times).1 =
      deadlineCalls (t.type == .repeat) t.dtime.toNat (some start.toNat) (times.map UInt32.toNat) := by
  induction times generalizing t start with
  | nil => rfl
  | cons time times ih =>
    obtain ⟨hle, hrest⟩ := List.pairwise_cons.mp hmono
    have htime : t.ltime ≤ time := hle time (by simp)
    rw [timerUpdates, List.map_cons, deadlineCalls]
    by_cases hend : start.toNat + t.dtime.toNat ≤ time.toNat
    · rw [h.expires htime hend, if_pos hend]
      dsimp only
      cases htype : t.type with
      | once =>
        rw [timerUpdates_stopped rfl]
        exact congrArg (true :: ·) (deadlineCalls_none _ _ times).symm
      | «repeat» =>
        have harmed : ({ t with ltime := time, rtime := t.dtime, isRunning := true } : Timer).Armed
            time := armed_of_fresh rfl rfl h.period rfl
        have hcalls := ih harmed hrest
        simp only [htype] at hcalls
        exact congrArg (true :: ·) hcalls
    · obtain ⟨t', hstep, harmed, hltime, hdtime, htype⟩ := h.counts htime hend
      rw [hstep, if_neg hend]
      have hcalls := ih harmed (by rwa [hltime])
      rw [hdtime, htype] at hcalls
      exact congrArg (false :: ·) hcalls

/-- Behind its callback a timer that runs once is stopped with its whole time left. -/
theorem Timer.Armed.stops (h : t.Armed start) (hmono : (t.ltime :: times).Pairwise (· ≤ ·))
    (htype : t.type = .once) (hcall : true ∈ (timerUpdates t times).1) :
    (timerUpdates t times).2.isRunning = false ∧ (timerUpdates t times).2.rtime = t.dtime ∧
      (timerUpdates t times).2.dtime = t.dtime ∧ (timerUpdates t times).2.type = .once := by
  induction times generalizing t with
  | nil => simp [timerUpdates] at hcall
  | cons time times ih =>
    obtain ⟨hle, hrest⟩ := List.pairwise_cons.mp hmono
    have htime : t.ltime ≤ time := hle time (by simp)
    rw [timerUpdates] at hcall ⊢
    by_cases hend : start.toNat + t.dtime.toNat ≤ time.toNat
    · rw [h.expires htime hend, htype]
      dsimp only
      rw [timerUpdates_stopped rfl]
      exact ⟨rfl, rfl, rfl, rfl⟩
    · obtain ⟨t', hstep, harmed, hltime, hdtime, htype'⟩ := h.counts htime hend
      rw [hstep] at hcall ⊢
      have hstops := ih harmed (by rwa [hltime]) (htype'.trans htype) (by simpa using hcall)
      rwa [hdtime] at hstops

end Periods

/-- A timer that is created running or reset calls its callback exactly at the ends of its periods.
One that runs once is then stopped until it is started again, with its whole time. -/
theorem timer_exact (t : Timer) (t₀ : UInt32) (hd : 1 ≤ t.dtime.toNat)
    (ht : (∃ type dtime, t = timerNew t₀ type dtime true) ∨ ∃ old, t = timerReset t₀ old)
    (times : List UInt32) (hmono : (t₀ :: times).Pairwise (· ≤ ·)) :
    (timerUpdates t times).1 =
      deadlineCalls (t.type == .repeat) t.dtime.toNat (some t₀.toNat) (times.map UInt32.toNat) ∧
    (t.type = .once → true ∈ (timerUpdates t times).1 →
      ∀ t', t' = (timerUpdates t times).2 →
        t'.isRunning = false ∧ t'.rtime = t.dtime ∧
        (∀ times', timerUpdates t' times' = (times'.map fun _ => false, t')) ∧
        ∀ (t₁ : UInt32) (times' : List UInt32), (t₁ :: times').Pairwise (· ≤ ·) →
          (timerUpdates (timerStart t₁ t') times').1 =
            deadlineCalls false t.dtime.toNat (some t₁.toNat) (times'.map UInt32.toNat)) := by
  have hltime : t.ltime = t₀ := by
    rcases ht with ⟨type, dtime, rfl⟩ | ⟨old, rfl⟩ <;> rfl
  have harmed : t.Armed t₀ := by
    rcases ht with ⟨type, dtime, rfl⟩ | ⟨old, rfl⟩
    · exact armed_of_fresh rfl rfl hd rfl
    · exact armed_of_fresh rfl rfl hd rfl
  rw [← hltime] at hmono
  refine ⟨harmed.calls hmono, ?_⟩
  rintro htype hcall t' rfl
  obtain ⟨hstopped, hrtime, hdtime, htype'⟩ := harmed.stops hmono htype hcall
  refine ⟨hstopped, hrtime, timerUpdates_stopped hstopped, ?_⟩
  intro t₁ times' hmono'
  have hagain : (timerStart t₁ (timerUpdates t times).2).Armed t₁ :=
    armed_of_fresh rfl rfl (by rw [← hdtime] at hd; exact hd) (by rw [hdtime.symm] at hrtime; exact hrtime)
  have hcalls := hagain.calls hmono'
  rwa [timerStart_type, htype', show (timerStart t₁ (timerUpdates t times).2).dtime = t.dtime from
    hdtime] at hcalls

/-- A minute that repeats, updated late: the second period starts with the update at 1065. -/
theorem timer_exact_repeat :
    (timerUpdates (timerNew 1000 .repeat 60 true) [1030, 1030, 1065, 1120, 1125]).1 =
      [false, false, true, false, true] := by
  rw [(timer_exact (timerNew 1000 .repeat 60 true) 1000 (by decide) (.inl ⟨_, _, rfl⟩)
    [1030, 1030, 1065, 1120, 1125] (by decide)).1]
  rfl

end DHCPServer
