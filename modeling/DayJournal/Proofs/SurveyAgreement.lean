import DayJournal.Proofs.DateRange
import DayJournal.Proofs.Repetitions
import DayJournal.Proofs.RowPlaces

/-!
# Surveys agree with the views of days

A survey goes over the sections of a document and, line by line, over its repetitions; the view of a
day reads the text of that day and looks what of other days is shown there.  Where no day has two
sections and no entry is blank, a survey has just those days of its range of which the view shows an
entry, a repetition or an event of a calendar, and says of each what its view shows.
-/

namespace DayJournal

open Text Document

def Row.RepeatsOn (r : Row) (day : Date) : Prop :=
  ∃ rule, Repetition.rule? r.entry.content = some rule ∧ rule.fallsOn day = true

namespace DayView

/-- What is said of a day is what its view shows. -/
structure Agrees (v : DayView) (i : DayInfo) : Prop where
  entries : i.entries = true ↔ v.own ≠ []
  openTasks : i.openTasks = true ↔ ∃ r ∈ v.own, r.entry.kind = .task ∧ r.entry.completed = false
  events : i.events = true ↔ ∃ r ∈ v.own, r.entry.kind = .event
  recurring : i.recurring = true ↔ ∃ r ∈ v.projected, r.RepeatsOn v.day
  calendar : i.calendar = true ↔ v.calendar ≠ []

theorem Agrees.unique {v : DayView} {i i' : DayInfo} (h : v.Agrees i) (h' : v.Agrees i') :
    i = i' := by
  have hentries := h.entries.trans h'.entries.symm
  have hopen := h.openTasks.trans h'.openTasks.symm
  have hevents := h.events.trans h'.events.symm
  have hrecurring := h.recurring.trans h'.recurring.symm
  have hcalendar := h.calendar.trans h'.calendar.symm
  obtain ⟨_, _, _, _, _⟩ := i
  obtain ⟨_, _, _, _, _⟩ := i'
  simp only [DayInfo.mk.injEq]
  simp only [← Bool.eq_iff_iff] at hentries hopen hevents hrecurring hcalendar
  exact ⟨hentries, hopen, hevents, hrecurring, hcalendar⟩

theorem Agrees.isEmpty_iff {v : DayView} {i : DayInfo} (h : v.Agrees i) :
    i.isEmpty = false ↔
      v.own ≠ [] ∨ (∃ r ∈ v.projected, r.RepeatsOn v.day) ∨ v.calendar ≠ [] := by
  rw [← h.entries, ← h.recurring, ← h.calendar, DayInfo.isEmpty]
  cases i.entries <;> cases i.recurring <;> cases i.calendar <;> decide

variable {document : Text} {day : Date}

theorem exists_own_iff (hdays : ((ofText document).sections.map Section.day).Nodup)
    (hblank : ∀ r ∈ Row.ofDocument document, isBlankText r.entry.content = false)
    {P : Entry → Prop} (hP : ∀ e e', e.Alike e' → (P e ↔ P e')) (events : Overlay) :
    (∃ r ∈ (ofDocument document day events).own, P r.entry) ↔
      ∃ r ∈ Row.ofDocument document, r.day = day ∧ P r.entry := by
  constructor
  · rintro ⟨r, hr, hp⟩
    obtain ⟨hday, -, h⟩ := Row.mem_ofLines.1 hr
    have hplace : entryIn document ⟨day, r.line⟩ = some r.entry := h
    obtain ⟨r', hr', heq, halike⟩ := Row.exists_of_entryIn hblank hplace
    exact ⟨r', hr', congrArg Address.day heq, (hP _ _ halike).1 hp⟩
  · rintro ⟨r, hr, rfl, hp⟩
    obtain ⟨e, he, halike⟩ := Row.exists_entryIn hdays hr (hblank r hr)
    exact ⟨⟨e, r.day, r.line, .home⟩, Row.mem_ofLines.2 ⟨rfl, rfl, he⟩, (hP _ _ halike).2 hp⟩

theorem exists_projected_iff (events : Overlay) :
    (∃ r ∈ (ofDocument document day events).projected, r.RepeatsOn day) ↔
      ∃ r ∈ Row.ofDocument document, r.day ≠ day ∧ r.RepeatsOn day := by
  constructor
  · rintro ⟨r, hr, rule, hrule, hfalls⟩
    obtain ⟨r₀, hr₀, hday, -, hentry⟩ := Row.exists_of_mem_projectedRows hr
    exact ⟨r₀, hr₀, hday, rule, by rwa [← hentry], hfalls⟩
  · rintro ⟨r, hr, hday, rule, hrule, hfalls⟩
    obtain ⟨r', hr'⟩ : ∃ r', Row.projected? day r = some r' := by
      rw [Row.projected?, if_neg hday]
      split
      · exact ⟨_, rfl⟩
      · rw [hrule]
        exact ⟨_, if_pos hfalls⟩
    refine ⟨r', ?_, rule, by rwa [(Row.of_projected? hr').2.2], hfalls⟩
    exact mem_sortBy.2 (List.mem_filterMap.2 ⟨r, hr, hr'⟩)

theorem agrees_on (hdays : ((ofText document).sections.map Section.day).Nodup)
    (hblank : ∀ r ∈ Row.ofDocument document, isBlankText r.entry.content = false)
    (events : Overlay) :
    (ofDocument document day events).Agrees
      (DayInfo.on (Row.ofDocument document) (recurrences document) events day) where
  entries := by
    have hown : (ofDocument document day events).own ≠ [] ↔
        ∃ r ∈ (ofDocument document day events).own, True :=
      ⟨fun hne => (List.exists_mem_of_ne_nil _ hne).imp fun _ hr => ⟨hr, trivial⟩,
        fun ⟨_, hr, _⟩ => List.ne_nil_of_mem hr⟩
    rw [hown]
    refine Iff.trans ?_ (exists_own_iff (P := fun _ => True) hdays hblank
      (fun _ _ _ => Iff.rfl) events).symm
    simp [DayInfo.on]
  openTasks := by
    refine Iff.trans ?_ (exists_own_iff (P := fun e => e.kind = .task ∧ e.completed = false)
      hdays hblank (fun e e' h => by rw [h.kind, h.completed]) events).symm
    simp [DayInfo.on, List.any_filter]
  events := by
    refine Iff.trans ?_ (exists_own_iff (P := fun e => e.kind = .event)
      hdays hblank (fun e e' h => by rw [h.kind]) events).symm
    simp [DayInfo.on, List.any_filter]
  recurring := by
    refine Iff.trans ?_ (exists_projected_iff events).symm
    rw [recurrences_eq]
    constructor
    · intro h
      obtain ⟨⟨home, rule⟩, hmem, hfalls⟩ := List.any_eq_true.1 h
      obtain ⟨r, hr, hrule⟩ := List.mem_filterMap.1 hmem
      obtain ⟨rule', hrule', heq⟩ := Option.map_eq_some_iff.1 hrule
      cases heq
      rw [Bool.and_eq_true, bne_iff_ne] at hfalls
      exact ⟨r, hr, hfalls.1, rule, hrule', hfalls.2⟩
    · rintro ⟨r, hr, hday, rule, hrule, hfalls⟩
      refine List.any_eq_true.2 ⟨(r.day, rule), List.mem_filterMap.2 ⟨r, hr, ?_⟩, ?_⟩
      · rw [hrule, Option.map_some]
      · rw [Bool.and_eq_true, bne_iff_ne]
        exact ⟨hday, hfalls⟩
  calendar := by
    simp [DayInfo.on, ofDocument, Overlay.rowsOn]

end DayView

/-! ## The days of a survey -/

theorem nodup_eraseDups {α : Type} [BEq α] [LawfulBEq α] (l : List α) : l.eraseDups.Nodup := by
  induction hlength : l.length using Nat.strong_induction_on generalizing l with
  | _ n ih =>
      cases l with
      | nil => exact .nil
      | cons a more =>
          rw [List.eraseDups_cons, List.nodup_cons]
          refine ⟨by simp [List.mem_eraseDups], ih _ ?_ _ rfl⟩
          have hle := List.length_filter_le (fun b => !b == a) more
          rw [← hlength, List.length_cons]
          omega

section Days

variable {rows : List Row} {repetitions : List (Date × Recurrence)} {events : Overlay}
  {start finish day : Date}

theorem nodup_surveyedDays : (surveyedDays rows repetitions events start finish).Nodup := by
  rw [surveyedDays]
  split
  · exact (nodup_eraseDups _).filter _
  · exact (Date.pairwise_days _ _).imp fun hlt => ne_of_lt hlt

theorem mem_surveyedDays (h : (DayInfo.on rows repetitions events day).isEmpty = false) :
    day ∈ surveyedDays rows repetitions events start finish ↔ start ≤ day ∧ day ≤ finish := by
  rw [surveyedDays]
  split
  · next hnone =>
    rw [List.isEmpty_iff] at hnone
    subst hnone
    -- Without repetitions, what is shown of a day is entries or events of a calendar.
    have hshown : (∃ r ∈ rows, r.day = day) ∨ events.on day ≠ [] := by
      by_contra hnot
      rw [not_or, not_not] at hnot
      have hown : rows.filter (fun r => r.day == day) = [] :=
        List.filter_eq_nil_iff.2 fun r hr hday => hnot.1 ⟨r, hr, by simpa using hday⟩
      simp [DayInfo.on, DayInfo.isEmpty, hown, hnot.2] at h
    have hday : day ∈ rows.map Row.day ++ events.map Prod.fst := by
      rcases hshown with ⟨r, hr, rfl⟩ | hevents
      · exact List.mem_append_left _ (List.mem_map_of_mem hr)
      · refine List.mem_append_right _ ?_
        by_contra hnot
        have hlookup : events.lookup day = none := by
          rw [List.lookup_eq_none_iff]
          intro p hp
          rw [bne_iff_ne]
          rintro rfl
          exact hnot (List.mem_map_of_mem hp)
        exact hevents (by rw [Overlay.on, hlookup]; rfl)
    simp [List.mem_eraseDups, hday]
  · exact Date.mem_range

end Days

/-- Where no day has two sections and no entry is blank, and if no repetition is looked for behind
the last day of the calendar, a survey succeeds, and it has just the days of its range of which the
view shows an entry, a repetition or an event of a calendar, each once and as its view shows it. -/
theorem survey_agrees (document : Text) (start finish : Date) (events : Overlay)
    (hdays : ((ofText document).sections.map Section.day).Nodup)
    (hblank : ∀ r ∈ Row.ofDocument document, isBlankText r.entry.content = false)
    (hend : finish < Date.last ∨
      ∀ r ∈ Row.ofDocument document, Repetition.rule? r.entry.content = none) :
    ∃ infos, survey document start finish events = .ok infos ∧ (infos.map Prod.fst).Nodup ∧
      ∀ day info, (day, info) ∈ infos ↔
        (start ≤ day ∧ day ≤ finish) ∧
        ((DayView.ofDocument document day events).own ≠ [] ∨
          (∃ r ∈ (DayView.ofDocument document day events).projected, r.RepeatsOn day) ∨
          (DayView.ofDocument document day events).calendar ≠ []) ∧
        (DayView.ofDocument document day events).Agrees info := by
  let rows := Row.ofDocument document
  let on := DayInfo.on rows (recurrences document) events
  let infos := ((surveyedDays rows (recurrences document) events start finish).map fun d =>
    (d, on d)).filter fun info => !info.2.isEmpty
  have hsurvey : survey document start finish events = .ok infos := by
    rw [survey, if_neg]
    rcases hend with hlt | hnone
    · simp [ne_of_lt hlt]
    · have hempty : recurrences document = [] := by
        rw [recurrences_eq, List.filterMap_eq_nil_iff]
        intro r hr
        rw [hnone r hr, Option.map_none]
      simp [hempty]
  have hagrees : ∀ day, (DayView.ofDocument document day events).Agrees (on day) :=
    fun day => DayView.agrees_on hdays hblank events
  refine ⟨infos, hsurvey, ?_, fun day info => ?_⟩
  · have hfst : ((surveyedDays rows (recurrences document) events start finish).map fun d =>
        (d, on d)).map Prod.fst = surveyedDays rows (recurrences document) events start finish := by
      rw [List.map_map]
      exact List.map_id _
    have hsub := (List.filter_sublist (p := fun info : Date × DayInfo => !info.2.isEmpty)
      (l := (surveyedDays rows (recurrences document) events start finish).map fun d =>
        (d, on d))).map Prod.fst
    rw [hfst] at hsub
    exact hsub.nodup nodup_surveyedDays
  · have hmem : (day, info) ∈ infos ↔
        day ∈ surveyedDays rows (recurrences document) events start finish ∧ info = on day ∧
          (on day).isEmpty = false := by
      rw [List.mem_filter, List.mem_map]
      constructor
      · rintro ⟨⟨d, hd, heq⟩, hshown⟩
        cases heq
        exact ⟨hd, rfl, by simpa using hshown⟩
      · rintro ⟨hd, rfl, hshown⟩
        exact ⟨⟨day, hd, rfl⟩, by simpa using hshown⟩
    rw [hmem]
    constructor
    · rintro ⟨hday, rfl, hshown⟩
      exact ⟨(mem_surveyedDays hshown).1 hday, (hagrees day).isEmpty_iff.1 hshown, hagrees day⟩
    · rintro ⟨hday, hshown, hinfo⟩
      have hempty := (hagrees day).isEmpty_iff.2 hshown
      exact ⟨(mem_surveyedDays hempty).2 hday, hinfo.unique (hagrees day), hempty⟩

/-- A task of its own and a repetition from the day before, of which the line ends in a carriage
return, in a document that is not in the order of its days. -/
theorem survey_agrees_unsorted :
    (DayView.ofDocument "# 2026/01/06\n- [ ] a\n\n# 2026/01/05\n* b @every-day\r\n".toList
        ⟨2026, 1, 6, by decide⟩ []).Agrees
      { entries := true, openTasks := true, events := false, recurring := true,
        calendar := false } := by
  obtain ⟨infos, hinfos, -, hmem⟩ :=
    survey_agrees "# 2026/01/06\n- [ ] a\n\n# 2026/01/05\n* b @every-day\r\n".toList
      ⟨2026, 1, 5, by decide⟩ ⟨2026, 1, 6, by decide⟩ [] (by decide +kernel) (by decide +kernel)
      (Or.inl (by decide))
  have hlist : (survey "# 2026/01/06\n- [ ] a\n\n# 2026/01/05\n* b @every-day\r\n".toList
      ⟨2026, 1, 5, by decide⟩ ⟨2026, 1, 6, by decide⟩ []).toOption =
      some [(⟨2026, 1, 5, by decide⟩, ⟨true, false, true, false, false⟩),
        (⟨2026, 1, 6, by decide⟩, ⟨true, true, false, true, false⟩)] := by decide +kernel
  rw [eq_ok_of_toOption hlist] at hinfos
  cases hinfos
  exact ((hmem _ _).1 (by simp)).2.2

end DayJournal
