import DHCPServer.Packet.Message
import DHCPServer.Transaction.Timer

namespace DHCPServer

/-- `transaction_t` -/
structure Transaction where
  transactionBegin : UInt32
  xid : UInt32
  numOfMessages : UInt8
  messages : List Message
  timer : Timer
  deriving DecidableEq

def transClear (now : UInt32) (t : Transaction) : Transaction where
  transactionBegin := 0
  xid := 0
  numOfMessages := 0
  messages := []
  timer := if t.timer.isRunning then timerStop (timerReset now t.timer) else t.timer

def transNew (now time : UInt32) : Transaction :=
  transClear now ⟨0, 0, 0, [], timerNew now .once time false⟩

/-- `trans_add`; `true` stands for the return value 0. -/
def transAdd (now : UInt32) (t : Transaction) (message : Message) : Bool × Transaction :=
  if t.xid ≠ 0 ∧ t.xid ≠ message.xid then (false, t)
  else
    let num := t.numOfMessages + 1
    (true, {
      transactionBegin := if t.numOfMessages = 0 then now else t.transactionBegin
      xid := if t.numOfMessages = 0 then message.xid else t.xid
      numOfMessages := num
      messages := t.messages ++ [message]
      timer := if num = 1 then timerStart now t.timer else t.timer })

def transGetIndex (t : Transaction) (index : UInt8) : Option Message :=
  t.messages[index.toNat]?

def transSearchFor (t : Transaction) (type : UInt32) : Option Message :=
  t.messages.find? fun m => m.type == type

/-- `trans_search_for_last`: the list is walked to its end and the last hit kept. -/
def transSearchForLast (t : Transaction) (type : UInt32) : Option Message :=
  t.messages.foldl (fun last m => if m.type == type then some m else last) none

/-- A transaction whose timer is stopped is empty, and its timer runs once. -/
structure Transaction.Sound (t : Transaction) : Prop where
  once : t.timer.type = .once
  idle : t.timer.isRunning = false → t.messages = [] ∧ t.xid = 0 ∧ t.numOfMessages = 0
  xids : ∀ m ∈ t.messages, m.xid = t.xid

variable {now : UInt32} {t : Transaction} {m : Message}

@[simp] theorem transClear_messages : (transClear now t).messages = [] := rfl
@[simp] theorem transClear_xid : (transClear now t).xid = 0 := rfl
@[simp] theorem transClear_numOfMessages : (transClear now t).numOfMessages = 0 := rfl

@[simp] theorem transClear_isRunning : (transClear now t).timer.isRunning = false := by
  unfold transClear
  dsimp only
  split
  · rfl
  · rename_i h
    simpa using h

theorem transClear_sound (now : UInt32) (h : t.timer.type = .once) : (transClear now t).Sound := by
  refine ⟨?_, fun _ => ⟨rfl, rfl, rfl⟩, by simp⟩
  unfold transClear
  dsimp only
  split
  · exact h
  · exact h

theorem transNew_sound (time : UInt32) : (transNew now time).Sound := transClear_sound now rfl

/-- The transaction is one that `trans_add` is called on: the one with the message's xid, or a
cleared one. -/
def Transaction.Takes (t : Transaction) (m : Message) : Prop :=
  t.xid = m.xid ∨ (t.messages = [] ∧ t.xid = 0 ∧ t.numOfMessages = 0)

theorem transAdd_cases (now : UInt32) (hx : t.Takes m) :
    ∃ t', transAdd now t m = (true, t') ∧ t'.messages = t.messages ++ [m] ∧ t'.xid = m.xid ∧
      (t.timer.isRunning = true ∨ t.numOfMessages = 0 → t'.timer.isRunning = true) ∧
      t'.timer.type = t.timer.type := by
  have hadd : ¬(t.xid ≠ 0 ∧ t.xid ≠ m.xid) := by
    intro h
    obtain ⟨h0, hm⟩ := h
    rcases hx with hx | ⟨-, hx, -⟩
    · exact hm hx
    · exact h0 hx
  refine ⟨_, by rw [transAdd, if_neg hadd], rfl, ?_, ?_, ?_⟩
  · dsimp only
    split
    · rfl
    · rename_i hn
      exact hx.elim id fun h => absurd h.2.2 hn
  · intro hr
    dsimp only
    split
    · rfl
    · rename_i hn
      rcases hr with hr | hr
      · exact hr
      · exact absurd (by rw [hr]; rfl) hn
  · dsimp only
    split <;> rfl

theorem Transaction.Sound.add (now : UInt32) (h : t.Sound) (hx : t.Takes m) :
    (transAdd now t m).2.Sound ∧ (transAdd now t m).2.timer.isRunning = true := by
  obtain ⟨t', heq, hm, hxid, hrun, htype⟩ := transAdd_cases now hx
  rw [heq]
  have hrunning : t'.timer.isRunning = true := by
    cases hr : t.timer.isRunning with
    | true => exact hrun (.inl hr)
    | false => exact hrun (.inr (h.idle hr).2.2)
  refine ⟨⟨htype.trans h.once, fun hi => by simp [hrunning] at hi, ?_⟩, hrunning⟩
  intro m' hm'
  rw [hm, List.mem_append, List.mem_singleton] at hm'
  rcases hm' with hm' | rfl
  · rcases hx with hx | ⟨hnil, -, -⟩
    · rw [hxid, ← hx, h.xids m' hm']
    · simp [hnil] at hm'
  · exact hxid.symm

theorem searchForLast_isSome {t : Transaction} {type : UInt32} :
    (transSearchForLast t type).isSome ↔ ∃ m ∈ t.messages, m.type = type := by
  unfold transSearchForLast
  -- a hit is never given up
  have hgen : ∀ (l : List Message) (last : Option Message),
      (l.foldl (fun last m => if m.type == type then some m else last) last).isSome ↔
        last.isSome ∨ ∃ m ∈ l, m.type = type := by
    intro l
    induction l with
    | nil => simp
    | cons m l ih =>
      intro last
      rw [List.foldl_cons, ih]
      by_cases ht : m.type = type
      · simp [ht]
      · simp [ht]
  simpa using hgen t.messages none

theorem searchFor_isSome {t : Transaction} {type : UInt32} :
    (transSearchFor t type).isSome ↔ ∃ m ∈ t.messages, m.type = type := by
  simp [transSearchFor, List.find?_isSome]

end DHCPServer
