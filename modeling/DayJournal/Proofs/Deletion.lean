import DayJournal.Action.Perform
import DayJournal.Proofs.DatedDocument
import DayJournal.Proofs.EntryMap
import DayJournal.Proofs.Insertion
import DayJournal.Proofs.Sorting

/-!
# Entries deleted one after the other

The entries at some places are deleted from the last one up, and what is remembered is the text
that each day had before.  In a dated document putting these texts back makes each day read as it
did, and gives the document itself back if it is plain.  Deleting the entries once more that were
there to be deleted gives the same again.
-/

namespace DayJournal

open Text Document

namespace Address

theorem isBefore_iff (a b : Address) : isBefore a b = true ↔ a.key < b.key := by
  simp [isBefore, key, Prod.Lex.toLex_lt_toLex]

theorem key_le_key_iff (day : Date) (i j : Int) :
    (⟨day, i⟩ : Address).key ≤ (⟨day, j⟩ : Address).key ↔ i ≤ j := by
  simp [key, Prod.Lex.toLex_le_toLex]

def lastFirst (places : List Address) : List Address :=
  sortBy (fun a b => isBefore b a) places

theorem lastFirst_eq_of_perm {places places' : List Address} (hperm : places.Perm places')
    (h : places'.Pairwise fun a b => b.key ≤ a.key) : lastFirst places = places' := by
  have hbefore : ∀ a b : Address, isBefore b a = true ↔
      OrderDual.toDual a.key < OrderDual.toDual b.key := fun a b => isBefore_iff b a
  exact sortBy_eq_of_perm hbefore
    (fun _ _ hab => key_injective (OrderDual.toDual.injective hab)) hperm h

theorem pairwise_lastFirst (places : List Address) :
    (lastFirst places).Pairwise fun a b => b.key ≤ a.key := by
  have hbefore : ∀ a b : Address, isBefore b a = true ↔
      OrderDual.toDual a.key < OrderDual.toDual b.key := fun a b => isBefore_iff b a
  exact pairwise_sortBy hbefore places

theorem mem_lastFirst {place : Address} {places : List Address} :
    place ∈ lastFirst places ↔ place ∈ places := mem_sortBy

theorem pairwise_lastFirst_of_nodup {places : List Address} (h : places.Nodup) :
    (lastFirst places).Pairwise fun a b => b.key < a.key := by
  have hdistinct : (lastFirst places).Nodup := (sortBy_perm _ places).nodup_iff.2 h
  refine ((pairwise_lastFirst places).and hdistinct).imp fun {a b} hab => ?_
  exact lt_of_le_of_ne hab.1 fun hkey => hab.2 (key_injective hkey).symm

end Address

/-! ## An entry taken out -/

namespace Document

variable {t : Text} {place : Address} {e : Entry}

theorem headless_remove (t : Text) (place : Address) :
    ∀ l ∈ Line.remove (dayLines t place.day) place.line, l.Headless :=
  fun _ hl => headless_of_mem_dayLines (Line.mem_of_mem_remove hl)

theorem preamble_removeLine (late : 1000 ≤ place.day.year) (t : Text) :
    (outline (removeLine t place)).preamble = (outline t).preamble :=
  preamble_updateDay late (Line.headless_writeAll (headless_remove t place)) t

theorem Dated.removeLine (h : Dated t) (he : entryIn t place = some e) :
    Dated (removeLine t place) :=
  h.setLines (h.late_of_entryIn he) (headless_remove t place)

theorem Dated.dayText_removeLine (h : Dated t) (he : entryIn t place = some e) (day : Date) :
    dayText (Document.removeLine t place) day =
      if day = place.day then
        trimEnd (Line.writeAll (Line.remove (dayLines t place.day) place.line))
      else dayText t day :=
  h.dayText_setLines (h.late_of_entryIn he) (headless_remove t place) day

end Document

/-! ## Deletions -/

/-- What there is in the course of deletions: the document, the entries that were deleted and the
texts that their days had before, both with the last deletion first. -/
structure Deletion where
  text : Text
  deleted : List FoundEntry := []
  days : List (Date × Text) := []

namespace Deletion

def step (s : Deletion) (place : Address) : Deletion :=
  match entryIn s.text place with
  | none => s
  | some e =>
    { text := removeLine s.text place
      deleted := ⟨place, e⟩ :: s.deleted
      days := if s.days.any (·.1 == place.day) then s.days
        else (place.day, dayText s.text place.day) :: s.days }

def run (s : Deletion) (places : List Address) : Deletion := places.foldl step s

variable {s : Deletion} {t : Text}

theorem run_concat (s : Deletion) (places : List Address) (place : Address) :
    s.run (places ++ [place]) = (s.run places).step place := List.foldl_concat ..

theorem step_of_none {place : Address} (h : entryIn s.text place = none) : s.step place = s := by
  rw [step, h]

theorem text_step {place : Address} {e : Entry} (h : entryIn s.text place = some e) :
    (s.step place).text = removeLine s.text place := by
  rw [step, h]

/-- The text of a day is remembered before the first deletion there only. -/
theorem days_step {place : Address} {e : Entry} (h : entryIn s.text place = some e) :
    (∃ d ∈ (s.step place).days, d.1 = place.day) ∧ s.days ⊆ (s.step place).days ∧
      ∀ d ∈ (s.step place).days, d ∈ s.days ∨
        d = (place.day, dayText s.text place.day) ∧ ∀ d' ∈ s.days, d'.1 ≠ place.day := by
  rw [step, h]
  by_cases hany : s.days.any (·.1 == place.day) = true
  · obtain ⟨d, hd, hday⟩ := List.any_eq_true.1 hany
    simp only [hany, if_true]
    exact ⟨⟨d, hd, by simpa using hday⟩, List.Subset.refl _, fun d hd => Or.inl hd⟩
  · have hnew : ∀ d' ∈ s.days, d'.1 ≠ place.day := by
      intro d' hd' hday
      exact hany (List.any_eq_true.2 ⟨d', hd', by simpa using hday⟩)
    simp only [hany]
    refine ⟨⟨_, List.mem_cons_self, rfl⟩, List.subset_cons_self _ _, fun d hd => ?_⟩
    rcases List.mem_cons.1 hd with rfl | hd
    · exact Or.inr ⟨rfl, hnew⟩
    · exact Or.inl hd

/-- Only the places count that held an entry when their turn came. -/
theorem exists_run_sublist (s : Deletion) (places : List Address) :
    ∃ held, held.Sublist places ∧ s.run held = s.run places ∧
      (s.run places).deleted.map FoundEntry.place =
        held.reverse ++ s.deleted.map FoundEntry.place := by
  induction places generalizing s with
  | nil => exact ⟨[], .slnil, rfl, rfl⟩
  | cons place more ih =>
      obtain ⟨held, hheld, hrun, hdeleted⟩ := ih (s.step place)
      cases he : entryIn s.text place with
      | none =>
          rw [step_of_none he] at hrun hdeleted
          refine ⟨held, hheld.cons place, ?_, ?_⟩
          · rw [hrun, run, run, List.foldl_cons, step_of_none he]
          · rw [← hdeleted, run, List.foldl_cons, step_of_none he]
            rfl
      | some e =>
          refine ⟨place :: held, hheld.cons_cons place, hrun, ?_⟩
          have hplaces : (s.step place).deleted.map FoundEntry.place =
              place :: s.deleted.map FoundEntry.place := by
            rw [step, he]
            rfl
          rw [hplaces] at hdeleted
          simpa [run] using hdeleted

/-- Deleting from the last place up what was deleted gives the same once more. -/
theorem run_deleted (t : Text) (places : List Address) :
    (Deletion.mk t [] []).run (Address.lastFirst
        (((Deletion.mk t [] []).run (Address.lastFirst places)).deleted.map FoundEntry.place)) =
      (Deletion.mk t [] []).run (Address.lastFirst places) := by
  -- The places that held an entry are in order already, so sorting them gives them back.
  obtain ⟨held, hheld, hrun, hdeleted⟩ :=
    exists_run_sublist ⟨t, [], []⟩ (Address.lastFirst places)
  have hordered := (Address.pairwise_lastFirst places).sublist hheld
  have hperm : held.reverse.Perm held := List.reverse_perm held
  rw [hdeleted, List.map_nil, List.append_nil, Address.lastFirst_eq_of_perm hperm hordered, hrun]

/-- What was deleted comes from a document, and the days that are not remembered are as they
were there. -/
structure From (t : Text) (s : Deletion) : Prop where
  dated : Dated s.text
  preamble : trimEnd (ofText s.text).preamble = trimEnd (ofText t).preamble
  kept : ∀ day, (∀ d ∈ s.days, d.1 ≠ day) → dayText s.text day = dayText t day
  remembered : ∀ d ∈ s.days, 1000 ≤ d.1.year ∧ d.2 = dayText t d.1

theorem From.step (h : From t s) (place : Address) : From t (s.step place) := by
  cases he : entryIn s.text place with
  | none =>
      rw [step_of_none he]
      exact h
  | some e =>
      have late := h.dated.late_of_entryIn he
      have hother : ∀ day, day ≠ place.day →
          dayText (removeLine s.text place) day = dayText s.text day := by
        intro day hne
        rw [h.dated.dayText_removeLine he, if_neg hne]
      obtain ⟨⟨d, hd, hday⟩, hsub, hdays⟩ := days_step he
      refine ⟨?_, ?_, fun day hnot => ?_, fun d hd => ?_⟩
      · rw [text_step he]
        exact h.dated.removeLine he
      · rw [text_step he]
        exact (preamble_removeLine late s.text).trans h.preamble
      · have hne : day ≠ place.day := fun heq => hnot d hd (hday.trans heq.symm)
        rw [text_step he, hother day hne]
        exact h.kept day fun d hd => hnot d (hsub hd)
      · rcases hdays d hd with hd | ⟨rfl, hnew⟩
        · exact h.remembered d hd
        · exact ⟨late, h.kept place.day hnew⟩

theorem From.run (h : From t s) (places : List Address) : From t (s.run places) := by
  induction places generalizing s with
  | nil => exact h
  | cons place more ih => exact ih (h.step place)

theorem from_run (h : Dated t) (places : List Address) :
    From t ((Deletion.mk t [] []).run places) := by
  have hstart : From t ⟨t, [], []⟩ := ⟨h, rfl, fun _ _ => rfl, by simp⟩
  exact hstart.run places

theorem plain_run (h : PlainDocument s.text) (places : List Address) :
    PlainDocument (s.run places).text := by
  induction places generalizing s with
  | nil => exact h
  | cons place more ih =>
      apply ih
      cases he : entryIn s.text place with
      | none => rwa [step_of_none he]
      | some e =>
          rw [text_step he]
          exact h.setLines (h.late_of_entryIn he) fun l hl =>
            h.plain_dayLines l (Line.mem_of_mem_remove hl)

end Deletion

/-! ## Days put back -/

namespace Document

def putDays (days : List (Date × Text)) (t : Text) : Text :=
  days.foldl (fun t d => updateDay t d.1 d.2) t

variable {t u : Text} {days : List (Date × Text)}

theorem Canonical.putDays (hu : Canonical u)
    (hdays : ∀ d ∈ days, 1000 ≤ d.1.year ∧ Headless d.2) : Canonical (putDays days u) := by
  induction days generalizing u with
  | nil => exact hu
  | cons d more ih =>
      obtain ⟨⟨late, headless⟩, hmore⟩ := List.forall_mem_cons.1 hdays
      exact ih (hu.updateDay late headless) hmore

theorem Dated.readsAs_putDays (hu : Dated u)
    (hpreamble : trimEnd (ofText u).preamble = trimEnd (ofText t).preamble)
    (hkept : ∀ day, (∀ d ∈ days, d.1 ≠ day) → dayText u day = dayText t day)
    (hdays : ∀ d ∈ days, 1000 ≤ d.1.year ∧ d.2 = dayText t d.1) :
    Dated (Document.putDays days u) ∧ ReadsAs (Document.putDays days u) t := by
  induction days generalizing u with
  | nil => exact ⟨hu, hpreamble, fun day => hkept day (by simp)⟩
  | cons d more ih =>
      obtain ⟨⟨late, htext⟩, hmore⟩ := List.forall_mem_cons.1 hdays
      have headless : Headless d.2 := by
        rw [htext]
        exact headless_dayText t d.1
      refine ih (hu.updateDay late headless)
        ((preamble_updateDay late headless u).trans hpreamble) (fun day hnot => ?_) hmore
      rw [hu.dayText_updateDay late headless]
      by_cases hday : day = d.1
      · rw [if_pos hday, hday, htext, trimEnd_dayText]
      · rw [if_neg hday]
        exact hkept day (List.forall_mem_cons.2 ⟨Ne.symm hday, hnot⟩)

end Document

theorem Deletion.From.readsAs_putDays {t : Text} {s : Deletion} {days : List (Date × Text)}
    (hs : s.From t) (hdays : ∀ d, d ∈ days ↔ d ∈ s.days) :
    Dated (putDays days s.text) ∧ ReadsAs (putDays days s.text) t := by
  refine hs.dated.readsAs_putDays hs.preamble (fun day hnot => hs.kept day fun d hd => ?_)
    fun d hd => ?_
  · exact hnot d ((hdays d).2 hd)
  · exact hs.remembered d ((hdays d).1 hd)

namespace PlainDocument

variable {t u : Text}

theorem putDays_of_from {s : Deletion} {days : List (Date × Text)} (ht : PlainDocument t)
    (hs : s.From t) (hplain : PlainDocument s.text) (hdays : ∀ d, d ∈ days ↔ d ∈ s.days) :
    putDays days s.text = t := by
  have hwritten : ∀ d ∈ days, 1000 ≤ d.1.year ∧ Headless d.2 := by
    intro d hd
    obtain ⟨late, htext⟩ := hs.remembered d ((hdays d).1 hd)
    rw [htext]
    exact ⟨late, headless_dayText t d.1⟩
  exact (hplain.canonical.putDays hwritten).ext ht.canonical (hs.readsAs_putDays hdays).2.dayText

end PlainDocument

end DayJournal
