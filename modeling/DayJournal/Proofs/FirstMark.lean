import DayJournal.Proofs.DateChanges
import DayJournal.Proofs.Words

/-!
# The first date mark

Taking a date mark out of a content, putting it off and setting it to today all cut the content at
its first date mark and join the two ends with single blanks.  At the seam no date mark comes to
be, goes or changes: a date mark reads no further than the run of digits and slashes behind its
`@`, so the cut does not touch those behind it, and those that begin before it end before it.
Main statement: the marks and the words of the content are the ones it had, but for the first mark.
-/

namespace DayJournal

open Text

namespace Text.Pattern

variable {α : Type} {p : Pattern α} {before : Option Char} {s lead behind : Text} {a : α}

/-- What the pattern takes hangs on nothing before it and ends before the next place it takes. -/
structure Parted (p : Pattern α) : Prop where
  ignores : ∀ before before' s, p before s = p before' s
  takes : ∀ before s taken a, p before s = some (taken, a) → 0 < taken ∧ taken ≤ s.length
  stops : ∀ before u v, u ≠ [] → (p none v).isSome → p before (u ++ v) = p before u

theorem firstFrom_cons_cases {c : Char} {rest : Text}
    (h : firstFrom p before (c :: rest) = some (lead, a, behind)) :
    (∃ taken, p before (c :: rest) = some (taken, a) ∧ lead = [] ∧
      behind = (c :: rest).drop taken) ∨
    (p before (c :: rest) = none ∧ ∃ skipped, lead = c :: skipped ∧
      firstFrom p (some c) rest = some (skipped, a, behind)) := by
  rw [firstFrom] at h
  cases hfound : p before (c :: rest) with
  | some found =>
      rw [hfound] at h
      cases h
      exact Or.inl ⟨found.1, rfl, rfl, rfl⟩
  | none =>
      rw [hfound] at h
      obtain ⟨⟨skipped, a', behind'⟩, hrest, heq⟩ := Option.map_eq_some_iff.1 h
      cases heq
      exact Or.inr ⟨rfl, skipped, rfl, hrest⟩

theorem Parted.exists_found (hp : Parted p) (h : firstFrom p before s = some (lead, a, behind)) :
    ∃ found, s = lead ++ (found ++ behind) ∧ p none (found ++ behind) = some (found.length, a) := by
  induction s generalizing before lead with
  | nil => cases h
  | cons c rest ih =>
      rcases firstFrom_cons_cases h with ⟨taken, hfound, rfl, rfl⟩ | ⟨-, skipped, rfl, hrest⟩
      · have hlength := (hp.takes before _ _ _ hfound).2
        refine ⟨(c :: rest).take taken, ?_, ?_⟩
        · rw [List.nil_append, List.take_append_drop]
        · rw [List.take_append_drop, List.length_take_of_le hlength, hp.ignores none before,
            hfound]
      · obtain ⟨found, rfl, htaken⟩ := ih hrest
        exact ⟨found, rfl, htaken⟩

theorem Parted.firstFrom_lead (hp : Parted p) (h : firstFrom p before s = some (lead, a, behind)) :
    firstFrom p before lead = none := by
  induction s generalizing before lead with
  | nil => cases h
  | cons c rest ih =>
      obtain ⟨found, hs, htaken⟩ := hp.exists_found h
      rcases firstFrom_cons_cases h with ⟨taken, -, rfl, -⟩ | ⟨hnone, skipped, rfl, hrest⟩
      · rfl
      · -- What begins at `c` ends before the place that was found, so the lead alone decides.
        have hstop := hp.stops before (c :: skipped) (found ++ behind) (by simp)
          (by rw [htaken]; rfl)
        rw [← hs, hnone] at hstop
        rw [firstFrom, ← hstop, ih hrest]
        rfl

theorem Parted.findAll_lead (hp : Parted p) (h : first? p s = some (lead, a, behind)) :
    findAll p lead = [] := by
  have hhead := map_first? p lead
  rw [first?, hp.firstFrom_lead h] at hhead
  exact List.head?_eq_none_iff.1 hhead.symm

theorem Parted.findAll_of_firstFrom (hp : Parted p)
    (h : firstFrom p before s = some (lead, a, behind)) :
    (segmentsFrom p 0 before s).filterMap Segment.meaning? = a :: findAll p behind := by
  induction s generalizing before lead with
  | nil => cases h
  | cons c rest ih =>
      rw [segmentsFrom]
      rcases firstFrom_cons_cases h with ⟨taken, hfound, -, rfl⟩ | ⟨hnone, skipped, -, hrest⟩
      · obtain ⟨more, rfl⟩ := Nat.exists_eq_succ_of_ne_zero (hp.takes before _ _ _ hfound).1.ne'
        simp only [hfound, Nat.succ_sub_one, segmentsFrom_eq_drop hp.ignores]
        rfl
      · simp only [hnone]
        exact ih hrest

end Text.Pattern

namespace DateMark

variable {content run t : Text} {today : Date}

theorem parted_pattern : pattern.Parted where
  ignores _ _ _ := rfl
  takes := stopsAtBlank_pattern.takes
  stops before u v hu hv := by
    cases v with
    | nil => cases hv
    | cons d v =>
        have hd : d = '@' := by
          by_contra hne
          rw [pattern_of_ne hne] at hv
          cases hv
        subst hd
        cases u with
        | nil => exact absurd rfl hu
        | cons c u =>
            by_cases hc : c = '@'
            · subst hc
              simp only [pattern, List.cons_append,
                takeWhile_append_blank (p := fun c => isDigit c || c = '/') (b := '@') (by decide)]
            · rw [List.cons_append, pattern_of_ne hc, pattern_of_ne hc]

def marks (content : Text) : List Text := (tokens content).map ('@' :: ·)

theorem marks_eq_nil_iff : marks content = [] ↔ tokens content = [] := List.map_eq_nil_iff

theorem lead_of_none (h : marks content = []) : lead content = content ∧ behind content = [] := by
  rw [lead, behind, tokens_eq_nil_iff.1 (marks_eq_nil_iff.1 h)]
  exact ⟨rfl, rfl⟩

theorem eq_cons_of_pattern {found rest token : Text}
    (h : pattern none (found ++ rest) = some (found.length, token)) : found = '@' :: token := by
  unfold pattern at h
  split at h
  · next more heq =>
    dsimp only at h
    split at h
    · obtain ⟨hlength, htoken⟩ := Prod.mk.inj (Option.some.inj h)
      have htake : (found ++ rest).take found.length = found := List.take_left
      rw [heq, ← hlength, List.take_succ_cons, ← List.prefix_iff_eq_take.1
        (List.takeWhile_prefix _), htoken] at htake
      exact htake.symm
    · cases h
  · cases h

/-- The marks of a content are its first, which stands between the lead, where there is none, and
what is behind it, where the others are. -/
theorem cut_at_first {mark : Text} (h : mark ∈ (marks content).head?) :
    lead content ++ (mark ++ behind content) = content ∧ tokens (lead content) = [] ∧
      tokens (behind content) = (tokens content).tail := by
  cases hfirst : Pattern.first? pattern content with
  | none =>
      rw [marks_eq_nil_iff.2 (tokens_eq_nil_iff.2 hfirst)] at h
      cases h
  | some cut =>
      obtain ⟨before, token, rest⟩ := cut
      have htokens : tokens content = token :: tokens rest :=
        parted_pattern.findAll_of_firstFrom hfirst
      obtain ⟨found, hcontent, hfound⟩ := parted_pattern.exists_found hfirst
      obtain rfl := eq_cons_of_pattern hfound
      rw [marks, htokens, List.map_cons, List.head?_cons, Option.mem_some_iff] at h
      subst h
      rw [lead, behind, hfirst]
      exact ⟨hcontent.symm, parted_pattern.findAll_lead hfirst, by rw [htokens]; rfl⟩

theorem tokens_lead (content : Text) : tokens (lead content) = [] := by
  cases hmarks : marks content with
  | nil => rw [(lead_of_none hmarks).1, ← List.map_eq_nil_iff, ← marks, hmarks]
  | cons mark more => exact (cut_at_first (by rw [hmarks]; rfl)).2.1

theorem tokens_behind (content : Text) : tokens (behind content) = (tokens content).tail := by
  cases hmarks : marks content with
  | nil =>
      rw [(lead_of_none hmarks).2, List.map_eq_nil_iff.1 hmarks]
      rfl
  | cons mark more => exact (cut_at_first (by rw [hmarks]; rfl)).2.2

/-- The text has the marks and the words of the content, but for the first mark of the content,
and a new one, if there is one, in its place. -/
structure FirstReplaced (content : Text) (new : Option Text) (t : Text) : Prop where
  marks : marks t = new.toList ++ (marks content).tail
  words : words t = words (lead content) ++ (new.toList ++ words (behind content))

theorem IsRun.words (h : IsRun run) : words ('@' :: run) = ['@' :: run] :=
  BlankFree.words_eq h.not_blank (by simp)

theorem IsRun.marks (h : IsRun run) : marks ('@' :: run) = ['@' :: run] := by
  rw [DateMark.marks, h.tokens]
  rfl

theorem firstReplaced_of_isMarked {mark : Text} {new : Option Text} (h : IsMarked content mark t)
    (hmarks : DateMark.marks mark = new.toList) (hwords : Text.words mark = new.toList) :
    FirstReplaced content new t where
  marks := by
    have htokens : tokens t = tokens (lead content) ++ (tokens mark ++ tokens (behind content)) :=
      h stopsAtBlank_pattern.findAll
    rw [DateMark.marks, htokens, tokens_lead, tokens_behind, List.nil_append, List.map_append,
      List.map_tail, ← DateMark.marks, hmarks, ← DateMark.marks]
  words := by rw [h partwise_words, hwords]

theorem exists_run_of_shape (d today : Date) (c : Prop) [Decidable c] :
    ∃ run, (if c then short d else write d today) = '@' :: run ∧ IsRun run := by
  split
  · exact ⟨d.monthDay, rfl, isRun_monthDay d⟩
  · obtain ⟨run, hwrite, hrun, -⟩ := exists_run_write d today
    exact ⟨run, hwrite, hrun⟩

/-- Taking out the date mark of a content, putting it off and setting it to today change the first
date mark and nothing else; there is nothing to take out just when there is no date mark. -/
theorem changes_first_mark (content : Text) (today : Date) :
    (marks content = [] → lead content = content ∧ behind content = []) ∧
    (∀ mark ∈ (marks content).head?, lead content ++ (mark ++ behind content) = content) ∧
    (remove? content = none ↔ marks content = []) ∧
    (∀ t, remove? content = some t → FirstReplaced content none t) ∧
    (((targetDate? content today).getD today).next? = none →
      defer content today = .error .dateOutOfRange) ∧
    (∀ next, ((targetDate? content today).getD today).next? = some next →
      ∃ t, defer content today = .ok t ∧ FirstReplaced content
        (some (if marks content = [] then short next else write next today)) t) ∧
    FirstReplaced content (some (short today)) (bringTo today content) := by
  refine ⟨lead_of_none, fun mark hmark => (cut_at_first hmark).1, ?_, fun t ht => ?_,
    fun hnone => ?_, fun next hnext => ?_, ?_⟩
  · rw [remove?_eq, marks_eq_nil_iff]
    split <;> simp_all
  · rw [remove?_eq] at ht
    split at ht
    · cases ht
    · cases ht
      exact firstReplaced_of_isMarked (isMarked_remark content []) rfl rfl
  · rw [defer_eq, nextDay, hnone]
    rfl
  · obtain ⟨run, hrun_eq, hrun⟩ := exists_run_of_shape next today (marks content = [])
    have hdefer : defer content today = .ok (remark content ('@' :: run)) := by
      rw [defer_eq, nextDay_eq_ok_iff.2 hnext, ← hrun_eq]
      simp only [marks_eq_nil_iff]
      rfl
    rw [hrun_eq]
    exact ⟨_, hdefer, firstReplaced_of_isMarked (isMarked_remark content ('@' :: run))
      hrun.marks hrun.words⟩
  · have hrun := isRun_monthDay today
    exact firstReplaced_of_isMarked (isMarked_bringTo today content) hrun.marks hrun.words

/-- The mark behind the one that goes keeps its digits though it was written close to it. -/
theorem changes_first_mark_of_adjacent_marks :
    FirstReplaced "a@1/2@3/4 b".toList none "a @3/4 b".toList ∧
      FirstReplaced "a@1/2@3/4 b".toList (some "@01/03".toList) "a @01/03 @3/4 b".toList := by
  obtain ⟨-, -, -, hremove, -, hdefer, -⟩ :=
    changes_first_mark "a@1/2@3/4 b".toList ⟨2026, 1, 1, by decide⟩
  obtain ⟨t, ht, hreplaced⟩ := hdefer ⟨2026, 1, 3, by decide⟩ (by decide +kernel)
  have hwritten : t = "a @01/03 @3/4 b".toList := by
    have hdeferred : (defer "a@1/2@3/4 b".toList ⟨2026, 1, 1, by decide⟩).toOption =
        some "a @01/03 @3/4 b".toList := by decide +kernel
    rw [ht] at hdeferred
    exact Option.some.inj hdeferred
  have hmark : (if marks "a@1/2@3/4 b".toList = [] then short ⟨2026, 1, 3, by decide⟩
      else write ⟨2026, 1, 3, by decide⟩ ⟨2026, 1, 1, by decide⟩) = "@01/03".toList := by
    decide +kernel
  rw [hwritten, hmark] at hreplaced
  exact ⟨hremove _ (by decide +kernel), hreplaced⟩

end DateMark

end DayJournal
