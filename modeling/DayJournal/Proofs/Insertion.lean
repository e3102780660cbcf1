import DayJournal.Journal
import DayJournal.Proofs.PlainDocument

/-!
# Entries put into a day and taken out again

Entries are put between the lines of a day.  When they are taken out from the last one up, each is
where it was put, since the lines above it have not moved.
-/

namespace DayJournal

open Text Document

namespace Line

theorem insertIdx_length_append {α : Type} (a b : List α) (x : α) :
    (a ++ b).insertIdx a.length x = a ++ x :: b := by
  induction a with
  | nil => rfl
  | cons y a ih => rw [List.cons_append, List.length_cons, List.insertIdx_succ_cons, ih]; rfl

theorem insertEntries_append {a b : List Line} {index : Int} (entries : List Entry)
    (h : index = a.length ∨ b = [] ∧ a.length ≤ index) :
    (insertEntries (a ++ b) index entries).1 = a ++ entries.map entry ++ b := by
  -- Each entry joins `a`, so the next one is put behind it.  An index beyond the end stays beyond
  -- it.
  induction entries generalizing a index with
  | nil => simp [insertEntries]
  | cons e more ih =>
      have hposition : min index ((a ++ b).length : Int) = a.length := by
        rcases h with rfl | ⟨rfl, hle⟩
        · rw [List.length_append]
          omega
        · rw [List.append_nil]
          omega
      have hinsert : insertAt (a ++ b) (min index ((a ++ b).length : Int)) (entry e) =
          (a ++ [entry e]) ++ b := by
        rw [hposition, insertAt, if_neg (by omega), List.length_append]
        have hindex :
            (min (a.length : Int) ((a.length + b.length : Nat) : Int)).toNat = a.length := by
          omega
        rw [hindex, insertIdx_length_append]
        simp
      have hnext : index + 1 = (a ++ [entry e]).length ∨
          b = [] ∧ (a ++ [entry e]).length ≤ index + 1 := by
        rw [List.length_append, List.length_singleton]
        rcases h with h | ⟨hb, h⟩
        · exact Or.inl (by omega)
        · exact Or.inr ⟨hb, by omega⟩
      simp only [insertEntries]
      rw [hinsert, ih hnext]
      simp

theorem insertEntries_fst {ls : List Line} {index : Int} (hindex : 0 ≤ index)
    (entries : List Entry) :
    (insertEntries ls index entries).1 =
      ls.take index.toNat ++ entries.map entry ++ ls.drop index.toNat := by
  have hindex : index = (ls.take index.toNat).length ∨
      ls.drop index.toNat = [] ∧ (ls.take index.toNat).length ≤ index := by
    rw [List.length_take, List.drop_eq_nil_iff]
    omega
  have hsplit := insertEntries_append entries hindex
  rwa [List.take_append_drop] at hsplit

theorem insertEntries_snd {ls : List Line} {index : Int} (hindex : 0 ≤ index)
    (entries : List Entry) :
    (insertEntries ls index entries).2 =
      (List.range entries.length).map fun (k : Nat) => min index ls.length + (k : Int) := by
  induction entries generalizing ls index with
  | nil => rfl
  | cons e more ih =>
      have hlength : (insertAt ls (min index ls.length) (entry e)).length = ls.length + 1 := by
        rw [insertAt, if_neg (by omega), List.length_insertIdx_of_le_length (by omega)]
      have hnext : (insertEntries ls index (e :: more)).2 = min index ls.length ::
          (insertEntries (insertAt ls (min index ls.length) (entry e)) (index + 1) more).2 := rfl
      rw [hnext, ih (by omega), hlength, List.length_cons, List.range_succ_eq_map, List.map_cons,
        List.map_map]
      congr 1
      · simp
      · apply List.map_congr_left
        intro k _
        simp only [Function.comp_apply, Nat.succ_eq_add_one, Nat.cast_add, Nat.cast_one]
        omega

theorem insertEntries_headD {ls : List Line} {index other : Int} {entries : List Entry}
    (hne : entries ≠ []) :
    (insertEntries ls index entries).2.headD other = min index ls.length := by
  cases entries with
  | nil => exact absurd rfl hne
  | cons e more => rfl

theorem remove_append {a b : List Line} {l : Line} {index : Int} (h : index = a.length) :
    remove (a ++ l :: b) index = a ++ b := by
  rw [h, remove, if_pos (by omega), Int.toNat_natCast, List.eraseIdx_append_of_length_le le_rfl]
  simp

theorem entryAt_append {a b : List Line} {e : Entry} {index : Int} (h : index = a.length) :
    entryAt? (a ++ entry e :: b) index = some e := by
  rw [h, entryAt?, if_pos (by omega), Int.toNat_natCast, List.getElem?_append_right le_rfl]
  rw [Nat.sub_self]
  rfl

end Line

namespace Document

def removeLine (t : Text) (place : Address) : Text :=
  setLines t place.day (Line.remove (dayLines t place.day) place.line)

/-- The place is one between the lines of its day, before the first or behind the last. -/
structure Fits (t : Text) (place : Address) : Prop where
  late : 1000 ≤ place.day.year
  nonneg : 0 ≤ place.line
  le_length : place.line ≤ (dayLines t place.day).length

def linesWith (t : Text) (place : Address) (entries : List Entry) : List Line :=
  (dayLines t place.day).take place.line.toNat ++ entries.map .entry ++
    (dayLines t place.day).drop place.line.toNat

def putEntries (t : Text) (place : Address) (entries : List Entry) : Text :=
  setLines t place.day (linesWith t place entries)

theorem linesWith_eq_append {t : Text} {day : Date} {index : Int}
    (h : index = (dayLines t day).length) (entries : List Entry) :
    linesWith t ⟨day, index⟩ entries = dayLines t day ++ entries.map .entry := by
  subst h
  simp [linesWith]

theorem linesWith_eq_insertEntries {t : Text} {day : Date} {line : Int} (hline : 0 ≤ line)
    (entries : List Entry) :
    linesWith t ⟨day, min line (dayLines t day).length⟩ entries =
      (Line.insertEntries (dayLines t day) line entries).1 := by
  rw [Line.insertEntries_fst hline]
  by_cases hle : line ≤ (dayLines t day).length
  · rw [min_eq_left hle]
    rfl
  · have hlength : (dayLines t day).length ≤ line.toNat := by omega
    rw [min_eq_right (by omega), linesWith_eq_append rfl, List.take_of_length_le hlength,
      List.drop_of_length_le hlength, List.append_nil]

end Document

namespace PlainDocument

variable {t : Text} {place : Address} {entries : List Entry} {e : Entry}

theorem setLines_setLines {day : Date} {ls ls' : List Line} (h : PlainDocument t)
    (late : 1000 ≤ day.year) (hls : Line.Kept ls) (hls' : Line.Kept ls') :
    Document.setLines (Document.setLines t day ls) day ls' = Document.setLines t day ls' := by
  have hplain := h.setLines late hls.plain
  apply (hplain.setLines late hls'.plain).ext_dayLines (h.setLines late hls'.plain)
  intro other
  rw [hplain.dayLines_setLines late hls', h.dayLines_setLines late hls',
    h.dayLines_setLines late hls]
  split <;> rfl

theorem kept_linesWith (h : PlainDocument t) (hentries : ∀ e ∈ entries, e.Plain) :
    Line.Kept (linesWith t place entries) :=
  (h.kept_dayLines place.day).insert place.line.toNat hentries

theorem putEntries (h : PlainDocument t) (fits : Fits t place)
    (hentries : ∀ e ∈ entries, e.Plain) : PlainDocument (putEntries t place entries) :=
  h.setLines fits.late (h.kept_linesWith hentries).plain

theorem dayLines_putEntries (h : PlainDocument t) (fits : Fits t place)
    (hentries : ∀ e ∈ entries, e.Plain) :
    dayLines (Document.putEntries t place entries) place.day = linesWith t place entries := by
  rw [Document.putEntries, h.dayLines_setLines fits.late (h.kept_linesWith hentries), if_pos rfl]

theorem putEntries_nil (h : PlainDocument t) (fits : Fits t place) :
    Document.putEntries t place [] = t := by
  have hlines : linesWith t place [] = dayLines t place.day := by simp [linesWith]
  rw [Document.putEntries, hlines, h.setLines_dayLines h fits.late fun _ _ => rfl]

theorem linesWith_concat (t : Text) (place : Address) (entries : List Entry) (e : Entry) :
    linesWith t place (entries ++ [e]) =
      ((dayLines t place.day).take place.line.toNat ++ entries.map .entry) ++
        .entry e :: (dayLines t place.day).drop place.line.toNat := by
  simp [linesWith]

theorem line_eq_length (fits : Fits t place) (entries : List Entry) :
    place.line + entries.length =
      ((dayLines t place.day).take place.line.toNat ++ entries.map Line.entry).length := by
  have hnonneg := fits.nonneg
  have hle := fits.le_length
  rw [List.length_append, List.length_take, List.length_map]
  omega

theorem entryIn_putEntries_concat (h : PlainDocument t) (fits : Fits t place)
    (hentries : ∀ x ∈ entries ++ [e], x.Plain) :
    entryIn (Document.putEntries t place (entries ++ [e]))
      { place with line := place.line + entries.length } = some e := by
  rw [entryIn, h.dayLines_putEntries fits hentries, linesWith_concat]
  exact Line.entryAt_append (line_eq_length fits entries)

theorem removeLine_putEntries_concat (h : PlainDocument t) (fits : Fits t place)
    (hentries : ∀ x ∈ entries ++ [e], x.Plain) :
    removeLine (Document.putEntries t place (entries ++ [e]))
      { place with line := place.line + entries.length } = Document.putEntries t place entries := by
  have hinit : ∀ x ∈ entries, x.Plain := fun x hx => hentries x (List.mem_append_left _ hx)
  have hremove : Line.remove (linesWith t place (entries ++ [e])) (place.line + entries.length) =
      linesWith t place entries := by
    rw [linesWith_concat, Line.remove_append (line_eq_length fits entries)]
    rfl
  rw [removeLine, h.dayLines_putEntries fits hentries, hremove]
  exact h.setLines_setLines fits.late (h.kept_linesWith hentries) (h.kept_linesWith hinit)

theorem takeOut_putEntries (h : PlainDocument t) (fits : Fits t place) (he : e.Plain) :
    entryIn (Document.putEntries t place [e]) place = some e ∧
      removeLine (Document.putEntries t place [e]) place = t := by
  have hentries : ∀ x ∈ [] ++ [e], x.Plain := by simpa using he
  have hplace : { place with line := place.line + ([] : List Entry).length } = place := by simp
  have hentry := h.entryIn_putEntries_concat fits hentries
  have hremove := h.removeLine_putEntries_concat fits hentries
  rw [hplace, List.nil_append] at hentry hremove
  rw [h.putEntries_nil fits] at hremove
  exact ⟨hentry, hremove⟩

end PlainDocument

end DayJournal
