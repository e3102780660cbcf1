import DayJournal.DayView
import DayJournal.Proofs.Sorting
import DayJournal.Proofs.TrimmedLines
import DayJournal.Query.Match

/-!
# The places of rows

A row is numbered where its section is read, blanks at the end of the section included, and it is
looked up in the trimmed text of the first section of its day.  Where no day has two sections and no
entry is blank, both see alike entries at the same places (`Row.exists_entryIn`,
`Row.exists_of_entryIn`), so every row that is shown can be addressed.
-/

namespace DayJournal

open Text Document

namespace Row

variable {r : Row} {day : Date} {document : Text}

/-! ## The rows of lines -/

theorem mem_ofLinesFrom {start : Nat} {ls : List Line} :
    r ∈ ofLinesFrom day start ls ↔
      ∃ i : Nat, ∃ e, ls[i]? = some (.entry e) ∧ r = ⟨e, day, (start + i : Nat), .home⟩ := by
  induction ls generalizing start with
  | nil => simp [ofLinesFrom]
  | cons l more ih =>
      have hmore : r ∈ ofLinesFrom day (start + 1) more ↔
          ∃ i : Nat, ∃ e, (l :: more)[i + 1]? = some (.entry e) ∧
            r = ⟨e, day, (start + (i + 1) : Nat), .home⟩ := by
        simp only [ih, List.getElem?_cons_succ, Nat.add_assoc, Nat.add_comm 1]
      cases l with
      | entry e =>
          rw [ofLinesFrom, List.mem_cons, hmore]
          constructor
          · rintro (rfl | ⟨i, h⟩)
            · exact ⟨0, e, rfl, rfl⟩
            · exact ⟨i + 1, h⟩
          · rintro ⟨i, e', h, rfl⟩
            cases i with
            | zero =>
                cases h
                exact Or.inl rfl
            | succ i => exact Or.inr ⟨i, e', h, rfl⟩
      | plain s =>
          rw [ofLinesFrom, hmore]
          constructor
          · rintro ⟨i, h⟩
            exact ⟨i + 1, h⟩
          · rintro ⟨i, e', h, rfl⟩
            cases i with
            | zero => cases h
            | succ i => exact ⟨i, e', h, rfl⟩

theorem mem_ofLines {ls : List Line} :
    r ∈ ofLines day ls ↔
      r.day = day ∧ r.origin = .home ∧ Line.entryAt? ls r.line = some r.entry := by
  rw [ofLines, mem_ofLinesFrom]
  constructor
  · rintro ⟨i, e, h, rfl⟩
    refine ⟨rfl, rfl, ?_⟩
    simp only [Nat.zero_add, Line.entryAt?, if_pos (Int.natCast_nonneg i), Int.toNat_natCast, h]
    rfl
  · rintro ⟨rfl, horigin, h⟩
    obtain ⟨hindex, hget⟩ := Line.getElem_of_entryAt h
    refine ⟨r.line.toNat, r.entry, hget, ?_⟩
    rw [Nat.zero_add, Int.toNat_of_nonneg hindex, ← horigin]

theorem pairwise_ofLinesFrom (day : Date) (start : Nat) (ls : List Line) :
    (ofLinesFrom day start ls).Pairwise fun a b => a.isBefore b = true := by
  induction ls generalizing start with
  | nil => exact .nil
  | cons l more ih =>
      cases l with
      | plain s => exact ih (start + 1)
      | entry e =>
          refine List.pairwise_cons.2 ⟨fun r hr => ?_, ih (start + 1)⟩
          obtain ⟨i, e', -, rfl⟩ := mem_ofLinesFrom.1 hr
          have hline : (start : Int) < ((start + 1 + i : Nat) : Int) := by omega
          simp only [isBefore, hline, beq_self_eq_true, decide_true, Bool.and_self, Bool.or_true]

/-! ## The rows of a document -/

theorem mem_ofDocument :
    r ∈ ofDocument document ↔ r.origin = .home ∧
      ∃ s ∈ (ofText document).sections, s.day = r.day ∧
        Line.entryAt? s.lines r.line = some r.entry := by
  simp only [ofDocument, List.mem_flatMap, mem_ofLines]
  constructor
  · rintro ⟨s, hs, hday, horigin, h⟩
    exact ⟨horigin, s, hs, hday.symm, h⟩
  · rintro ⟨horigin, s, hs, hday, h⟩
    exact ⟨s, hs, hday.symm, horigin, h⟩

theorem pairwise_ofDocument (hdays : ((ofText document).sections.map Section.day).Nodup) :
    (ofDocument document).Pairwise fun a b => a.place ≠ b.place := by
  rw [List.Nodup, List.pairwise_map] at hdays
  rw [ofDocument, List.pairwise_flatMap]
  refine ⟨fun s hs => ?_, hdays.imp fun hne a ha b hb heq => ?_⟩
  · refine (pairwise_ofLinesFrom s.day 0 s.lines).imp fun {a b} hlt heq => ?_
    rw [isBefore_iff, heq] at hlt
    exact lt_irrefl _ hlt
  · have hday := congrArg Address.day heq
    rw [show a.place.day = a.day from rfl, show b.place.day = b.day from rfl, (mem_ofLines.1 ha).1,
      (mem_ofLines.1 hb).1] at hday
    exact hne hday

theorem pairwise_inOrder {rows : List Row} (h : rows.Pairwise fun a b => a.place ≠ b.place) :
    (inOrder rows).Pairwise fun a b => a.isBefore b = true := by
  have hne := ((sortBy_perm isBefore rows).pairwise_iff fun hab => Ne.symm hab).2 h
  refine ((pairwise_sortBy isBefore_iff rows).and hne).imp fun {a b} ⟨hle, hab⟩ => ?_
  rw [isBefore_iff]
  exact lt_of_le_of_ne hle fun hkey => hab (Address.key_injective hkey)

/-! ## Looking rows up -/

theorem dayText_of_section (hdays : ((ofText document).sections.map Section.day).Nodup)
    {s : Section} (hs : s ∈ (ofText document).sections) :
    dayText document s.day = trimEnd s.body := by
  have hfind : (ofText document).section? s.day = some s := by
    rw [section?, List.find?_eq_some_iff_append]
    obtain ⟨before, after, hsections⟩ := List.append_of_mem hs
    refine ⟨by simp, before, after, hsections, fun t ht => ?_⟩
    rw [hsections, List.map_append, List.nodup_append] at hdays
    have hne := hdays.2.2 t.day (List.mem_map_of_mem ht) s.day (by simp)
    simpa using hne
  rw [dayText, hfind]

theorem exists_entryIn (hdays : ((ofText document).sections.map Section.day).Nodup)
    (hr : r ∈ ofDocument document) (hblank : isBlankText r.entry.content = false) :
    ∃ e, entryIn document r.place = some e ∧ e.Alike r.entry := by
  obtain ⟨-, s, hs, hday, h⟩ := mem_ofDocument.1 hr
  obtain ⟨e, he, halike⟩ := Line.exists_entryAt_trimEnd h hblank
  refine ⟨e, ?_, halike⟩
  rw [entryIn, dayLines, place, ← hday, dayText_of_section hdays hs]
  exact he

theorem exists_of_entryIn {place : Address} {e : Entry}
    (hblank : ∀ r ∈ ofDocument document, isBlankText r.entry.content = false)
    (h : entryIn document place = some e) :
    ∃ r ∈ ofDocument document, r.place = place ∧ e.Alike r.entry := by
  rw [entryIn, dayLines, dayText] at h
  split at h
  · next s hs =>
    have hmem : s ∈ (ofText document).sections := List.mem_of_find?_eq_some hs
    have hday : s.day = place.day := by simpa using List.find?_some hs
    have hrow : ∀ e', Line.entryAt? s.lines place.line = some e' →
        (⟨e', place.day, place.line, .home⟩ : Row) ∈ ofDocument document :=
      fun e' he' => mem_ofDocument.2 ⟨rfl, s, hmem, hday, he'⟩
    obtain ⟨e', he', halike⟩ := Line.exists_entryAt_of_trimEnd h
      fun e' he' => hblank _ (hrow e' he')
    exact ⟨_, hrow e' he', rfl, halike⟩
  · cases hindex : place.line.toNat <;> simp [Line.entryAt?, Line.readAll] at h

/-! ## Rows that are shown on another day -/

theorem of_projected? {target : Date} {r' : Row} (h : projected? target r = some r') :
    r.day ≠ target ∧ r'.place = r.place ∧ r'.entry = r.entry := by
  unfold projected? at h
  split at h
  · cases h
  · next hday =>
    refine ⟨hday, ?_⟩
    split at h
    · cases h
      exact ⟨rfl, rfl⟩
    · split at h
      · split at h
        · cases h
          exact ⟨rfl, rfl⟩
        · cases h
      · cases h

theorem exists_of_mem_projectedRows {target : Date} (h : r ∈ projectedRows document target) :
    ∃ r₀ ∈ ofDocument document, r₀.day ≠ target ∧ r.place = r₀.place ∧ r.entry = r₀.entry := by
  rw [projectedRows, inOrder, mem_sortBy, List.mem_filterMap] at h
  obtain ⟨r₀, hr₀, hprojected⟩ := h
  exact ⟨r₀, hr₀, of_projected? hprojected⟩

theorem pairwise_projectedRows (hdays : ((ofText document).sections.map Section.day).Nodup)
    (target : Date) : (projectedRows document target).Pairwise fun a b => a.isBefore b = true := by
  refine pairwise_inOrder ((pairwise_ofDocument hdays).filterMap _ fun a b hne a' ha b' hb => ?_)
  rw [(of_projected? ha).2.1, (of_projected? hb).2.1]
  exact hne

end Row

/-- Where no day has two sections and no entry is blank, every row that a day or a filter shows is
found at its place, with its kind, its completion and, up to blanks at the end, its content.  Rows
from elsewhere have another home day, and each list is in the strict order of the places, so no row
is in it twice. -/
theorem Journal.rows_addressed (j : Journal) (day : Date) (events : Overlay) (f : Filter)
    (today : Date) (hdays : ((ofText j.text).sections.map Section.day).Nodup)
    (hblank : ∀ r ∈ Row.ofDocument j.text, isBlankText r.entry.content = false) :
    (∀ r, r ∈ (DayView.ofDocument j.text day events).own ∨
        r ∈ (DayView.ofDocument j.text day events).projected ∨ r ∈ f.rows j.text today →
      ∃ e, j.entry? r.place = some e ∧ e.Alike r.entry) ∧
    (∀ r ∈ (DayView.ofDocument j.text day events).projected, r.day ≠ day) ∧
    (DayView.ofDocument j.text day events).own.Pairwise (fun a b => a.isBefore b = true) ∧
    (DayView.ofDocument j.text day events).projected.Pairwise (fun a b => a.isBefore b = true) ∧
    (f.rows j.text today).Pairwise (fun a b => a.isBefore b = true) := by
  have hfound : ∀ r ∈ Row.ofDocument j.text, ∃ e, j.entry? r.place = some e ∧ e.Alike r.entry :=
    fun r hr => Row.exists_entryIn hdays hr (hblank r hr)
  refine ⟨?_, fun r hr => ?_, Row.pairwise_ofLinesFrom day 0 _,
    Row.pairwise_projectedRows hdays day,
    Row.pairwise_inOrder ((Row.pairwise_ofDocument hdays).filter _)⟩
  · rintro r (hr | hr | hr)
    -- Own rows are numbered in the text in which they are looked up.
    · obtain ⟨hday, -, h⟩ := Row.mem_ofLines.1 hr
      refine ⟨r.entry, ?_, .refl _⟩
      rw [Journal.entry?, Journal.lines, Row.place, hday]
      exact h
    · obtain ⟨r₀, hr₀, -, hplace, hentry⟩ := Row.exists_of_mem_projectedRows hr
      rw [hplace, hentry]
      exact hfound r₀ hr₀
    · exact hfound r (List.mem_filter.1 (mem_sortBy.1 hr)).1
  · obtain ⟨r₀, -, hday, hplace, -⟩ := Row.exists_of_mem_projectedRows hr
    have hsame : r.day = r₀.day := congrArg Address.day hplace
    rwa [hsame]

/-- A row that is shown on another day loses the blanks at its end where it is looked up. -/
theorem Journal.rows_addressed_later :
    ∃ e, Journal.entry? ⟨"# 2026/01/06\n\n- b @01/08 \n\n# 2026/01/05\n* c\n".toList, none⟩
        ⟨⟨2026, 1, 6, by decide⟩, 1⟩ = some e ∧
      e.Alike ⟨.note, "b @01/08 ".toList, false⟩ :=
  (Journal.rows_addressed ⟨"# 2026/01/06\n\n- b @01/08 \n\n# 2026/01/05\n* c\n".toList, none⟩
      ⟨2026, 1, 8, by decide⟩ [] {} ⟨2026, 1, 5, by decide⟩ (by decide +kernel)
      (by decide +kernel)).1
    ⟨⟨.note, "b @01/08 ".toList, false⟩, ⟨2026, 1, 6, by decide⟩, 1, .later⟩
    (Or.inr (Or.inl (by decide +kernel)))

end DayJournal
