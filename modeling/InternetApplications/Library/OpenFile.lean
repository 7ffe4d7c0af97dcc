import Mathlib.Data.List.Basic
import Mathlib.Logic.Function.Basic

namespace InternetApplications.OpenFiles

variable {κ : Type*} {content bytes : List UInt8} {position : ℕ}

abbrev Store (κ : Type*) := κ → List UInt8

structure Description (κ : Type*) where
  file : κ
  position : ℕ
  appending : Bool

/-- Behind the end, the gap is filled with zeros. -/
def overwrite (content : List UInt8) (position : ℕ) (bytes : List UInt8) : List UInt8 :=
  content.take position ++ List.replicate (position - content.length) 0 ++ bytes ++
    content.drop (position + bytes.length)

namespace Description

def read (d : Description κ) (store : Store κ) (n : ℕ) : List UInt8 × Description κ :=
  let bytes := ((store d.file).drop d.position).take n
  (bytes, { d with position := d.position + bytes.length })

/-- With `O_APPEND`, the position is set to the end first. -/
def write [DecidableEq κ] (d : Description κ) (store : Store κ) (bytes : List UInt8) :
    Store κ × Description κ :=
  if bytes = [] then (store, d)
  else
    let position := if d.appending then (store d.file).length else d.position
    (Function.update store d.file (overwrite (store d.file) position bytes),
      { d with position := position + bytes.length })

def seek (d : Description κ) (position : ℕ) : Description κ := { d with position := position }

end Description

theorem overwrite_end (content bytes : List UInt8) :
    overwrite content content.length bytes = content ++ bytes := by
  simp [overwrite]

theorem overwrite_of_le (h : position ≤ content.length) : overwrite content position bytes =
    content.take position ++ bytes ++ content.drop (position + bytes.length) := by
  rw [overwrite, Nat.sub_eq_zero_of_le h, List.replicate_zero, List.append_nil]

theorem overwrite_next (old pre bytes : List UInt8) :
    overwrite (pre ++ old.drop pre.length) pre.length bytes =
      pre ++ bytes ++ old.drop (pre.length + bytes.length) := by
  rw [overwrite_of_le (by simp), List.take_left, List.drop_append, List.drop_drop]
  simp

section Descriptions

variable {d : Description κ} {store : Store κ}

theorem read_end (h : (store d.file).length ≤ d.position) (n : ℕ) :
    d.read store n = ([], d) := by
  simp [Description.read, List.drop_eq_nil_of_le h]

theorem read_one (h : d.position < (store d.file).length) :
    d.read store 1 = ([(store d.file)[d.position]], d.seek (d.position + 1)) := by
  rw [Description.read, List.drop_eq_getElem_cons h]
  rfl

variable [DecidableEq κ]

theorem write_appending (h : d.appending) : (d.write store bytes).1 =
    Function.update store d.file (store d.file ++ bytes) := by
  rw [Description.write]
  split
  · rename_i hnil
    rw [hnil, List.append_nil, Function.update_eq_self]
  · simp only [overwrite_end]

end Descriptions

end InternetApplications.OpenFiles
