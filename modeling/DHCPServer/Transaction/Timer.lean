import Mathlib.Tactic

namespace DHCPServer

inductive TimerType
  | once
  | repeat
  deriving DecidableEq

/-- `struct timer` without its callback, which the owner of the timer runs. -/
structure Timer where
  type : TimerType
  dtime : UInt32
  rtime : UInt32
  isRunning : Bool
  ltime : UInt32
  deriving DecidableEq

def timerNew (now : UInt32) (type : TimerType) (dtime : UInt32) (isRunning : Bool) : Timer :=
  ⟨type, dtime, dtime, isRunning, now⟩

/-- `timer_update`; the first component tells that the callback is called. -/
def timerUpdate (now : UInt32) (t : Timer) : Bool × Timer :=
  if !t.isRunning then (false, t)
  else
    let timeDifference := now - t.ltime
    if timeDifference = 0 then (false, t)
    else if t.rtime ≤ timeDifference then
      (true, { t with ltime := now, rtime := t.dtime, isRunning := t.type == .repeat })
    else
      (false, { t with ltime := now, rtime := t.rtime - timeDifference })

def timerStart (now : UInt32) (t : Timer) : Timer := { t with isRunning := true, ltime := now }

def timerStop (t : Timer) : Timer := { t with isRunning := false }

def timerReset (now : UInt32) (t : Timer) : Timer :=
  { t with isRunning := true, ltime := now, rtime := t.dtime }

variable {now : UInt32} {t : Timer}

@[simp] theorem timerStart_isRunning : (timerStart now t).isRunning = true := rfl
@[simp] theorem timerStop_isRunning : (timerStop t).isRunning = false := rfl
@[simp] theorem timerStart_type : (timerStart now t).type = t.type := rfl
@[simp] theorem timerStop_type : (timerStop t).type = t.type := rfl
@[simp] theorem timerReset_type : (timerReset now t).type = t.type := rfl

/-- The type of a timer never changes. -/
theorem timerUpdate_type : (timerUpdate now t).2.type = t.type := by
  unfold timerUpdate
  split
  · rfl
  · dsimp only
    split
    · rfl
    · split <;> rfl

/-- An update without a callback leaves a timer as it was running or not. -/
theorem timerUpdate_isRunning (h : (timerUpdate now t).1 = false) :
    (timerUpdate now t).2.isRunning = t.isRunning := by
  unfold timerUpdate at h ⊢
  split
  · rfl
  · rename_i hr
    simp only [hr] at h
    dsimp only
    split
    · rfl
    · rename_i hd
      simp only [hd, if_false] at h
      split
      · rename_i hfire
        simp [hfire] at h
      · rfl

end DHCPServer
