import KhCommon.Lib.Machine
import Mathlib.Data.List.ReduceOption

/-! Inputs that are collected in windows. The first input behind the deadline closes the
window it is in, and the deadline of the next one is counted from it. Only the readings
of the clock decide, not what is collected. -/

namespace Window

open Machine

variable {ι T : Type*} [LT T] [DecidableLT T] [Add T]

/-- The deadline, and what was collected since the last window was closed. The output is the
window that the input closes. -/
def step (ttl : T) (time : ι → T) (s : T × List ι) (i : ι) : Option (List ι) × (T × List ι) :=
  if time i > s.1 then (some (s.2 ++ [i]), (time i + ttl, []))
  else (none, (s.1, s.2 ++ [i]))

theorem flatten_outputs (ttl : T) (time : ι → T) (s : T × List ι) (is : List ι) :
    (outputs (step ttl time) s is).reduceOption.flatten ++ (run (step ttl time) s is).2 =
      s.2 ++ is := by
  induction is generalizing s with
  | nil => simp [outputs]
  | cons i is ih =>
    rw [outputs, run_cons]
    by_cases late : time i > s.1
    · have closed : step ttl time s i = (some (s.2 ++ [i]), (time i + ttl, [])) := if_pos late
      rw [closed, List.reduceOption_cons_of_some, List.flatten_cons, List.append_assoc, ih]
      simp
    · have held : step ttl time s i = (none, (s.1, s.2 ++ [i])) := if_neg late
      rw [held, List.reduceOption_cons_of_none, ih]
      simp

end Window
