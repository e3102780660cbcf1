/-!
# Sorting

Insertion sort by a strict order.  Elements of which neither comes before the other keep the order
they had.
-/

namespace DayJournal

variable {α : Type}

/-- An element put into a sorted list, before the elements that are not before it. -/
def insertBy (isBefore : α → α → Bool) (a : α) : List α → List α
  | [] => [a]
  | b :: rest => if isBefore b a then b :: insertBy isBefore a rest else a :: b :: rest

def sortBy (isBefore : α → α → Bool) : List α → List α
  | [] => []
  | a :: rest => insertBy isBefore a (sortBy isBefore rest)

theorem insertBy_perm (isBefore : α → α → Bool) (a : α) (l : List α) :
    (insertBy isBefore a l).Perm (a :: l) := by
  induction l with
  | nil => exact .refl _
  | cons b rest ih =>
    simp only [insertBy]
    split
    · exact (ih.cons b).trans (.swap a b rest)
    · exact .refl _

theorem sortBy_perm (isBefore : α → α → Bool) (l : List α) : (sortBy isBefore l).Perm l := by
  induction l with
  | nil => exact .refl _
  | cons a rest ih => exact (insertBy_perm isBefore a _).trans (ih.cons a)

theorem mem_sortBy {isBefore : α → α → Bool} {l : List α} {a : α} :
    a ∈ sortBy isBefore l ↔ a ∈ l := (sortBy_perm isBefore l).mem_iff

end DayJournal
