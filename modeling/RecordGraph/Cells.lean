/-
# Numbered cells

The objects of a graph refer to one another by number, so that two wrappers of one record
stay two objects. Cells are numbered in the order of their making and are never given
back. Reading a cell that was never made answers the default, which keeps reading total;
nothing in this library reads one.
-/

namespace RecordGraph

/-- Cells numbered from zero. -/
structure Cells (α : Type) where
  /-- The contents, cell zero first. -/
  items : Array α

namespace Cells

variable {α : Type}

instance : Inhabited (Cells α) := ⟨⟨#[]⟩⟩

/-- No cell yet. -/
def empty : Cells α := ⟨#[]⟩

/-- Number of cells made so far; also the number of the next one. -/
def size (c : Cells α) : Nat := c.items.size

/-- One more cell, numbered by the old size. -/
def push (c : Cells α) (a : α) : Cells α := ⟨c.items.push a⟩

variable [Inhabited α]

/-- What a cell holds. -/
def get (c : Cells α) (i : Nat) : α := c.items[i]?.getD default

/-- Overwrites a cell, making the missing ones below it. -/
def set (c : Cells α) (i : Nat) (a : α) : Cells α :=
  if h : i < c.items.size then ⟨c.items.set i a h⟩
  else ⟨(c.items ++ Array.replicate (i - c.items.size) default).push a⟩

/-- A cell answers what was last written to it. -/
@[simp] theorem get_set (c : Cells α) (i : Nat) (a : α) (j : Nat) :
    (c.set i a).get j = if i = j then a else c.get j := by
  unfold get set
  split
  · rename_i h
    rw [Array.getElem?_set]
    split <;> simp_all
  · rename_i h
    rw [Array.getElem?_push]
    have hs : (c.items ++ Array.replicate (i - c.items.size) (default : α)).size = i := by
      simp; omega
    rw [hs]
    by_cases hj : j = i
    · simp [hj]
    · have hj' : ¬ i = j := fun e => hj e.symm
      simp only [hj, hj', if_false]
      by_cases hlt : j < c.items.size
      · rw [Array.getElem?_append_left hlt]
      · rw [Array.getElem?_append_right (by omega)]
        have hn : c.items[j]? = none := Array.getElem?_eq_none (by omega)
        rw [hn]
        by_cases hr : j - c.items.size < i - c.items.size <;> simp [hr]

/-- A new cell answers what it was made with, the older ones are as before. -/
@[simp] theorem get_push (c : Cells α) (a : α) (j : Nat) :
    (c.push a).get j = if j = c.size then a else c.get j := by
  unfold get push size
  rw [Array.getElem?_push]
  split <;> simp_all

theorem size_set_of_lt {c : Cells α} {i : Nat} (h : i < c.size) (a : α) :
    (c.set i a).size = c.size := by
  have h' : i < c.items.size := h
  simp [set, size, h']

omit [Inhabited α] in
@[simp] theorem size_push (c : Cells α) (a : α) : (c.push a).size = c.size + 1 := by
  simp [size, push]

end Cells

end RecordGraph
