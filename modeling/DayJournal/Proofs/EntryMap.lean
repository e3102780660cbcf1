import DayJournal.Proofs.PlainDocument

/-!
# Documents whose entries change

When an entry takes the place of an entry, the other lines of the document stay where they are.  So
a plain document is determined by its shape, which is what it has apart from its entries, and by
the entry at each place.
-/

namespace DayJournal

open Text Document

/-- What there is of a line apart from an entry on it. -/
def Line.shape : Line → Option Text
  | .entry _ => none
  | .plain s => some s

namespace Line

theorem eq_of_shape {ls ls' : List Line} (hshape : ls.map shape = ls'.map shape)
    (h : ∀ index, entryAt? ls index = entryAt? ls' index) : ls = ls' := by
  apply List.ext_getElem?
  intro i
  have hshape_i : (ls[i]?).map shape = (ls'[i]?).map shape := by
    rw [← List.getElem?_map, ← List.getElem?_map, hshape]
  have hi : (ls[i]?).bind entry? = (ls'[i]?).bind entry? := by
    have hi := h i
    rwa [entryAt?, entryAt?, if_pos (Int.natCast_nonneg i), if_pos (Int.natCast_nonneg i),
      Int.toNat_natCast] at hi
  cases hl : ls[i]? with
  | none =>
      rw [hl, Option.map_none, eq_comm, Option.map_eq_none_iff] at hshape_i
      rw [hshape_i]
  | some l =>
      cases hl' : ls'[i]? with
      | none => rw [hl, hl'] at hshape_i; cases hshape_i
      | some l' =>
          rw [hl, hl'] at hshape_i hi
          simp only [Option.map_some, Option.some.injEq, Option.bind_some] at hshape_i hi
          cases l <;> cases l' <;> simp_all [shape, entry?]

theorem getElem_of_entryAt {ls : List Line} {index : Int} {e : Entry}
    (h : entryAt? ls index = some e) : 0 ≤ index ∧ ls[index.toNat]? = some (entry e) := by
  unfold entryAt? at h
  split at h
  · next hindex =>
    obtain ⟨l, hl, he⟩ := Option.bind_eq_some_iff.1 h
    cases l with
    | entry e' =>
        cases he
        exact ⟨hindex, hl⟩
    | plain s => cases he
  · cases h

theorem entryAt_set {ls : List Line} {index : Int} {old new : Entry}
    (h : entryAt? ls index = some old) (other : Int) :
    entryAt? (ls.set index.toNat (entry new)) other =
      if other = index then some new else entryAt? ls other := by
  obtain ⟨hindex, hline⟩ := getElem_of_entryAt h
  obtain ⟨hlt, -⟩ := List.getElem?_eq_some_iff.1 hline
  by_cases hother : other = index
  · subst hother
    rw [if_pos rfl, entryAt?, if_pos hindex, List.getElem?_set_self hlt]
    rfl
  · rw [if_neg hother, entryAt?, entryAt?]
    split
    · rw [List.getElem?_set_ne (by omega)]
    · rfl

theorem map_shape_set {ls : List Line} {index : Int} {old : Entry}
    (h : entryAt? ls index = some old) (new : Entry) :
    (ls.set index.toNat (entry new)).map shape = ls.map shape := by
  obtain ⟨-, hline⟩ := getElem_of_entryAt h
  apply List.ext_getElem?
  intro i
  rw [List.getElem?_map, List.getElem?_map, List.getElem?_set]
  split
  · next hi =>
    subst hi
    split
    · rw [hline]
      rfl
    · next hlt => rw [List.getElem?_eq_none (by omega)]
  · rfl

end Line

namespace Document

def SameShape (t u : Text) : Prop :=
  ∀ day, (dayLines t day).map Line.shape = (dayLines u day).map Line.shape

theorem SameShape.trans {t u v : Text} (h : SameShape t u) (h' : SameShape u v) : SameShape t v :=
  fun day => (h day).trans (h' day)

def putEntry (t : Text) (place : Address) (e : Entry) : Text :=
  setLines t place.day ((dayLines t place.day).set place.line.toNat (.entry e))

def mapEntry (t : Text) (place : Address) (f : Entry → Entry) : Text :=
  match entryIn t place with
  | none => t
  | some e => putEntry t place (f e)

theorem mapEntry_of_none {t : Text} {place : Address} (h : entryIn t place = none)
    (f : Entry → Entry) : mapEntry t place f = t := by
  rw [mapEntry, h]

theorem mapEntry_of_some {t : Text} {place : Address} {e : Entry} (h : entryIn t place = some e)
    (f : Entry → Entry) : mapEntry t place f = putEntry t place (f e) := by
  rw [mapEntry, h]

end Document

namespace PlainDocument

variable {t u : Text} {place : Address} {e old : Entry}

theorem ext_entries (ht : PlainDocument t) (hu : PlainDocument u) (hshape : SameShape t u)
    (h : ∀ place, entryIn t place = entryIn u place) : t = u :=
  ht.ext_dayLines hu fun day => Line.eq_of_shape (hshape day) fun index => h ⟨day, index⟩

theorem plain_of_entryIn (h : PlainDocument t) (he : entryIn t place = some e) : e.Plain :=
  (h.plain_dayLines _ (Line.entry_mem_of_entryAt he)).entry e rfl

theorem late_of_entryIn (h : PlainDocument t) (he : entryIn t place = some e) :
    1000 ≤ place.day.year :=
  h.late_of_line (List.ne_nil_of_mem (Line.entry_mem_of_entryAt he))

section Put

variable (h : PlainDocument t) (hold : entryIn t place = some old) (he : e.Plain)
include h hold he

theorem putEntry : PlainDocument (putEntry t place e) :=
  h.setLines (h.late_of_entryIn hold) ((h.kept_dayLines place.day).set _ he).plain

theorem dayLines_putEntry (day : Date) :
    dayLines (Document.putEntry t place e) day =
      if day = place.day then (dayLines t place.day).set place.line.toNat (.entry e)
      else dayLines t day :=
  h.dayLines_setLines (h.late_of_entryIn hold) ((h.kept_dayLines place.day).set _ he) day

theorem sameShape_putEntry : SameShape (Document.putEntry t place e) t := by
  intro day
  rw [h.dayLines_putEntry hold he]
  split
  · next hday => rw [hday, Line.map_shape_set hold]
  · rfl

theorem entryIn_putEntry (q : Address) :
    entryIn (Document.putEntry t place e) q = if q = place then some e else entryIn t q := by
  obtain ⟨pday, pline⟩ := place
  obtain ⟨qday, qline⟩ := q
  rw [entryIn, h.dayLines_putEntry hold he]
  by_cases hday : qday = pday
  · subst hday
    rw [if_pos rfl, Line.entryAt_set hold]
    simp [entryIn]
  · have hne : (⟨qday, qline⟩ : Address) ≠ ⟨pday, pline⟩ := fun heq => hday (by cases heq; rfl)
    rw [if_neg hday, if_neg hne]
    rfl

end Put

theorem mapEntry_of_eq {f : Entry → Entry} (h : PlainDocument t) (hold : entryIn t place = some old)
    (hf : f old = old) : mapEntry t place f = t := by
  have hplain := h.plain_of_entryIn hold
  rw [mapEntry_of_some hold, hf]
  refine (h.putEntry hold hplain).ext_entries h (h.sameShape_putEntry hold hplain) fun q => ?_
  rw [h.entryIn_putEntry hold hplain]
  split
  · next hq => rw [hq, hold]
  · rfl

section Map

variable {f : Entry → Entry} (h : PlainDocument t) (hf : ∀ e, e.Plain → (f e).Plain)
include h hf

theorem mapEntry (place : Address) : PlainDocument (mapEntry t place f) := by
  cases hold : entryIn t place with
  | none => rwa [mapEntry_of_none hold]
  | some e =>
      rw [mapEntry_of_some hold]
      exact h.putEntry hold (hf e (h.plain_of_entryIn hold))

theorem sameShape_mapEntry (place : Address) : SameShape (Document.mapEntry t place f) t := by
  cases hold : entryIn t place with
  | none =>
      rw [mapEntry_of_none hold]
      exact fun _ => rfl
  | some e =>
      rw [mapEntry_of_some hold]
      exact h.sameShape_putEntry hold (hf e (h.plain_of_entryIn hold))

theorem entryIn_mapEntry (place q : Address) :
    entryIn (Document.mapEntry t place f) q =
      if q = place then (entryIn t q).map f else entryIn t q := by
  cases hold : entryIn t place with
  | none =>
      rw [mapEntry_of_none hold]
      split
      · next hq => rw [hq, hold, Option.map_none]
      · rfl
  | some e =>
      rw [mapEntry_of_some hold, h.entryIn_putEntry hold (hf e (h.plain_of_entryIn hold))]
      split
      · next hq => rw [hq, hold, Option.map_some]
      · rfl

end Map

end PlainDocument

end DayJournal
