/-
Counts.

The total of some counts, and how many values a word of a given width has.  Limits are
plain numbers throughout, so that a count may reach past the largest word.
-/

namespace UsbBoot

/-- The total of some counts. -/
def total : List Nat → Nat
  | [] => 0
  | count :: rest => count + total rest

/-- The number of values of eight bits. -/
def byteLimit : Nat := 0x100

/-- The number of values of sixteen bits. -/
def shortLimit : Nat := 0x10000

/-- The number of values of thirty-two bits. -/
def longLimit : Nat := 0x100000000

@[simp] theorem total_nil : total [] = 0 := rfl

@[simp] theorem total_cons (count : Nat) (rest : List Nat) :
    total (count :: rest) = count + total rest := rfl

@[simp] theorem total_append (xs ys : List Nat) : total (xs ++ ys) = total xs + total ys := by
  induction xs with
  | nil => simp
  | cons x xs ih => simp [ih, Nat.add_assoc]

end UsbBoot
