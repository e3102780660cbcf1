import DayJournal.DayView
import DayJournal.Proofs.FilterMeaning

/-!
# Rows dated on a day

An entry that is dated on a day is found in two ways: its date mark brings it to the view of that
day, and a filter with both bounds at the day lets it through.  The view asks for a date mark and
never takes the home day for one; a filter does, unless it is for later or for overdue entries, and
then the two find the same.
-/

namespace DayJournal

open DayJournal.Filter

def Row.shownLater (r : Row) : Row := { r with origin := .later }

def Row.isDatedOn (day : Date) (r : Row) : Bool :=
  r.day ≠ day && DateMark.targetDate? r.entry.content r.day = some day

variable {today day : Date}

/-! ## The two ways -/

theorem filter_projected (day : Date) (rows : List Row) :
    ((rows.filterMap (Row.projected? day)).filter fun r => r.origin = .later) =
      (rows.filter (Row.isDatedOn day)).map Row.shownLater := by
  induction rows with
  | nil => rfl
  | cons r rows ih =>
      by_cases hday : r.day = day
      · simp [Row.projected?, Row.isDatedOn, hday, ih]
      · by_cases htarget : DateMark.targetDate? r.entry.content r.day = some day
        · simp [Row.projected?, Row.isDatedOn, Row.shownLater, hday, htarget, ih]
        -- A row that comes by its rule is no later one.
        · cases hrule : Repetition.rule? r.entry.content with
          | none => simp [Row.projected?, Row.isDatedOn, hday, htarget, hrule, ih]
          | some rule =>
              cases hfalls : rule.fallsOn day <;>
                simp [Row.projected?, Row.isDatedOn, hday, htarget, hrule, hfalls, ih]

theorem laterRows_eq (document : Text) (day : Date) :
    laterRows document day =
      ((Row.inOrder (Row.ofDocument document)).filter (Row.isDatedOn day)).map Row.shownLater := by
  rw [laterRows, projectedRows, Row.filter_inOrder, filter_projected, Row.filter_inOrder,
    Row.map_inOrder (f := Row.shownLater) fun _ => rfl]

/-! ## What the filters let through -/

theorem admits_of_bounds (day : Date) (overdue later : Bool) (e : Entry) (home today : Date) :
    ({ before := some day, after := some day, overdue, later } : Filter).admits e home today =
      (entryDate e home = day && (!overdue || isOverdue e home today) &&
        (!later || isLater e home today)) := by
  have hday : (decide (entryDate e home ≤ day) && decide (day ≤ entryDate e home)) =
      decide (entryDate e home = day) := by
    rw [Bool.eq_iff_iff, Bool.and_eq_true, decide_eq_true_eq, decide_eq_true_eq, decide_eq_true_eq]
    exact le_antisymm_iff.symm
  simp [admits, admitsKind, admitsDate, hday]

theorem admits_later (h : today < day) (e : Entry) (home : Date) :
    ({ later := true, before := some day, after := some day } : Filter).admits e home today =
      decide (DateMark.targetDate? e.content home = some day) := by
  rw [admits_of_bounds, entryDate, isLater]
  cases DateMark.targetDate? e.content home with
  | none => simp
  | some target =>
      by_cases htarget : target = day
      · subst htarget
        simp [h]
      · simp [htarget]

theorem admits_overdue (h : day < today) (e : Entry) (home : Date) :
    ({ overdue := true, before := some day, after := some day } : Filter).admits e home today =
      (DateMark.targetDate? e.content home = some day && !(e.kind == .task && e.completed)) := by
  rw [admits_of_bounds, entryDate, isOverdue]
  cases DateMark.targetDate? e.content home with
  | none => simp
  | some target =>
      by_cases htarget : target = day
      · subst htarget
        simp [h]
      · simp [htarget]

/-- What a filter for later entries finds on a day ahead, and a filter for overdue entries on a day
that has passed, are the entries that their date marks bring to that day, in the same order; the
entries that live on the day itself are found by the filters only, and an overdue task that is
completed is shown on the day only. -/
theorem dated_rows_agree (document : Text) (today day : Date) :
    (today < day →
      ((Filter.rows { later := true, before := some day, after := some day } document today).filter
        fun r => r.day ≠ day).map Row.shownLater = laterRows document day) ∧
    (day < today →
      ((Filter.rows { overdue := true, before := some day, after := some day } document
        today).filter fun r => r.day ≠ day).map Row.shownLater =
          (laterRows document day).filter fun r =>
            !(r.entry.kind == .task && r.entry.completed)) := by
  constructor
  · intro h
    rw [laterRows_eq, rows_eq, List.filter_filter]
    congr 1
    refine List.filter_congr fun r _ => ?_
    rw [admits_later h]
    rfl
  · intro h
    rw [laterRows_eq, rows_eq, List.filter_filter, List.filter_map, List.filter_filter]
    congr 1
    refine List.filter_congr fun r _ => ?_
    rw [admits_overdue h, ← Bool.and_assoc, Bool.and_comm]
    rfl

/-- Two sections of one day, a mark with a year, a completed task and a mark on its own day. -/
theorem dated_rows_agree_repeated_day :
    let document := "# 2026/01/06\n- a @01/08\n# 2026/01/08\n- b @1/8\n# 2026/01/06\n
- [x] c @01/08/26\n- d @every-day\n".toList
    let day : Date := ⟨2026, 1, 8, by decide⟩
    ((Filter.rows { later := true, before := some day, after := some day } document
        ⟨2026, 1, 7, by decide⟩).filter fun r => r.day ≠ day).map Row.shownLater =
      laterRows document day ∧
    ((Filter.rows { overdue := true, before := some day, after := some day } document
        ⟨2026, 1, 9, by decide⟩).filter fun r => r.day ≠ day).map Row.shownLater =
      [⟨⟨.note, "a @01/08".toList, false⟩, ⟨2026, 1, 6, by decide⟩, 0, .later⟩] := by
  intro document day
  have hpassed := (dated_rows_agree document ⟨2026, 1, 9, by decide⟩ day).2 (by decide)
  exact ⟨(dated_rows_agree document _ day).1 (by decide), hpassed.trans (by decide +kernel)⟩

end DayJournal
