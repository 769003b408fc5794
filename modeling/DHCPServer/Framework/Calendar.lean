import DHCPServer.Framework.Text

namespace DHCPServer

/-- The block of the given lengths that an index falls into, and the place inside the block. -/
def locate : List Nat → Nat → Nat × Nat
  | [], d => (0, d)
  | n :: ns, d => if d < n then (0, d) else ((locate ns (d - n)).1 + 1, (locate ns (d - n)).2)

theorem locate_spec {ns : List Nat} {d : Nat} (h : d < ns.sum) :
    (locate ns d).1 < ns.length ∧ (locate ns d).2 < ns.getD (locate ns d).1 0 ∧
      (ns.take (locate ns d).1).sum + (locate ns d).2 = d := by
  induction ns generalizing d with
  | nil => simp at h
  | cons n ns ih =>
    rw [List.sum_cons] at h
    rw [locate]
    split
    · simpa
    · obtain ⟨hblock, hplace, hsum⟩ := ih (d := d - n) (by omega)
      refine ⟨by simpa using hblock, by simpa using hplace, ?_⟩
      simp only [List.take_succ_cons, List.sum_cons]
      omega

/-- A day of the Gregorian calendar; months and days count from 1. -/
structure Date where
  year : Nat
  month : Nat
  day : Nat
  deriving DecidableEq

namespace Date

def isLeap (year : Nat) : Bool := year % 4 == 0 && (year % 100 != 0 || year % 400 == 0)

def yearLength (year : Nat) : Nat := if isLeap year then 366 else 365

def monthLengths (year : Nat) : List Nat :=
  [31, if isLeap year then 29 else 28, 31, 30, 31, 30, 31, 31, 30, 31, 30, 31]

/-- The day is one of the calendar. -/
structure Valid (d : Date) : Prop where
  month : 1 ≤ d.month ∧ d.month ≤ 12
  day : 1 ≤ d.day ∧ d.day ≤ (monthLengths d.year).getD (d.month - 1) 0

/-- The days from 1 January of a year to the date. -/
def daysSince (first : Nat) (d : Date) : Nat :=
  ((List.range' first (d.year - first)).map yearLength).sum +
    ((monthLengths d.year).take (d.month - 1)).sum + (d.day - 1)

/-- The date that many days behind 1 January of a year, among the `years` years from it on. -/
def ofDays (first years days : Nat) : Date :=
  let (k, rest) := locate ((List.range' first years).map yearLength) days
  let (m, d) := locate (monthLengths (first + k)) rest
  ⟨first + k, m + 1, d + 1⟩

theorem sum_monthLengths (year : Nat) : (monthLengths year).sum = yearLength year := by
  unfold monthLengths yearLength
  cases isLeap year <;> rfl

theorem ofDays_spec {first years days : Nat}
    (h : days < ((List.range' first years).map yearLength).sum) :
    (ofDays first years days).Valid ∧ (ofDays first years days).daysSince first = days := by
  obtain ⟨hk, hrest, hyears⟩ := locate_spec h
  simp only [List.length_map, List.length_range'] at hk
  generalize hlocate : locate ((List.range' first years).map yearLength) days = x at *
  obtain ⟨k, rest⟩ := x
  have hin : rest < (monthLengths (first + k)).sum := by
    rw [sum_monthLengths]
    simpa [List.getD_eq_getElem?_getD, hk] using hrest
  obtain ⟨hm, hd, hmonths⟩ := locate_spec hin
  have heq : ofDays first years days = ⟨first + k, (locate (monthLengths (first + k)) rest).1 + 1,
      (locate (monthLengths (first + k)) rest).2 + 1⟩ := by
    rw [ofDays, hlocate]
  have htwelve : (monthLengths (first + k)).length = 12 := rfl
  have htake : (List.range' first years).take k = List.range' first k := by
    exact List.take_range'_of_length_ge hk.le
  rw [heq]
  constructor
  · refine ⟨⟨Nat.le_add_left 1 _, ?_⟩, ⟨Nat.le_add_left 1 _, by simpa using hd⟩⟩
    exact htwelve ▸ hm
  · simp only [daysSince, Nat.add_sub_cancel_left, Nat.add_sub_cancel]
    rw [← List.map_take, htake] at hyears
    omega

end Date

/-- A day and a time of the day. -/
structure DateTime where
  date : Date
  hour : Nat
  minute : Nat
  second : Nat
  deriving DecidableEq

/-- The date and the time of day name the second that many seconds behind 1 January 1970. -/
structure DateTime.At (t : DateTime) (seconds : Nat) : Prop where
  date : t.date.Valid
  hour : t.hour < 24
  minute : t.minute < 60
  second : t.second < 60
  seconds : ((t.date.daysSince 1970 * 24 + t.hour) * 60 + t.minute) * 60 + t.second = seconds

/-- `gmtime`, for the times that fit 32 bits. -/
def gmtime (seconds : Nat) : DateTime where
  date := .ofDays 1970 137 (seconds / 86400)
  hour := seconds / 3600 % 24
  minute := seconds / 60 % 60
  second := seconds % 60

theorem gmtime_at {seconds : Nat} (h : seconds < 2 ^ 32) : (gmtime seconds).At seconds := by
  have hyears : ((List.range' 1970 137).map Date.yearLength).sum = 50038 := by decide +kernel
  have hin : seconds / 86400 < ((List.range' 1970 137).map Date.yearLength).sum := by omega
  obtain ⟨hvalid, hdays⟩ := Date.ofDays_spec hin
  refine ⟨hvalid, Nat.mod_lt _ (by decide), Nat.mod_lt _ (by decide), Nat.mod_lt _ (by decide), ?_⟩
  simp only [gmtime, hdays]
  omega

/-- A number in two decimal digits. -/
def twoDigits (n : Nat) : List Char := [Nat.digitChar (n / 10 % 10), Nat.digitChar (n % 10)]

/-- `put_time` with `"%Y-%m-%d %I:%M:%S %p"` -/
def putTime (t : DateTime) : List Char :=
  decimal t.date.year ++ "-".toList ++ twoDigits t.date.month ++ "-".toList ++
    twoDigits t.date.day ++ " ".toList ++
    twoDigits (if t.hour % 12 = 0 then 12 else t.hour % 12) ++ ":".toList ++ twoDigits t.minute ++
    ":".toList ++ twoDigits t.second ++ (if t.hour < 12 then " AM".toList else " PM".toList)

example : putTime (gmtime 1709210096) = "2024-02-29 12:34:56 PM".toList := by decide +kernel

end DHCPServer
