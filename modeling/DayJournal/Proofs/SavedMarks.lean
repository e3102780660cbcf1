import DayJournal.Proofs.RelativeMarks
import Mathlib.Data.List.TakeWhile

/-!
# Date marks of saved contents

The date marks that a content has once it is saved are read off the parts between its blanks, with
favourites written out and relative marks turned into date marks (`partwise_savedTokens`).  So a
date mark that is put into a content comes behind whatever date marks the text before it is given,
and it is the first, which alone counts, just when that text is given none.
-/

namespace DayJournal

open Text

namespace DateMark

theorem normalText_append (today : Date) (s : Text) (b : Char) (rest : Text)
    (hb : isBlank b = true) :
    normalText today (s ++ b :: rest) = normalText today s ++ b :: normalText today rest := by
  simp only [normalText, stopsAtBlank_relativePattern.segments_append hb, List.flatMap_append,
    List.flatMap_cons]
  rfl

/-! ## Texts that are nothing but a date mark -/

/-- What stands behind the `@` of a date mark that begins with a plain digit. -/
structure IsRun (run : Text) : Prop where
  shape : isDateShape run = true
  digits : ∀ c ∈ run, isDigit c = true ∨ c = '/'
  first : ∃ c rest, run = c :: rest ∧ c.isDigit = true

theorem isDigit_of_twoDigits {n : Nat} {c : Char} (h : c ∈ twoDigits n) : isDigit c = true :=
  List.all_eq_true.1 (Bool.and_eq_true_iff.1 (isNumeral_twoDigits n)).2 c h

theorem isRun_monthDay (d : Date) : IsRun d.monthDay where
  shape := by
    rw [isDateShape, Date.pieces_monthDay]
    rfl
  digits c hc := by
    simp only [Date.monthDay, List.mem_append, List.mem_cons] at hc
    rcases hc with hc | hc | hc
    · exact Or.inl (isDigit_of_twoDigits hc)
    · exact Or.inr hc
    · exact Or.inl (isDigit_of_twoDigits hc)
  first := d.monthDay_eq_cons

theorem isRun_monthDayYear (d : Date) : IsRun (d.monthDay ++ '/' :: twoDigits d.year) where
  shape := by
    rw [isDateShape, Date.pieces_monthDayYear]
    rfl
  digits c hc := by
    simp only [List.mem_append, List.mem_cons] at hc
    rcases hc with hc | hc | hc
    · exact (isRun_monthDay d).digits c hc
    · exact Or.inr hc
    · exact Or.inl (isDigit_of_twoDigits hc)
  first := by
    obtain ⟨c, rest, hcons, hdigit⟩ := d.monthDay_eq_cons
    exact ⟨c, rest ++ '/' :: twoDigits d.year, by rw [hcons, List.cons_append], hdigit⟩

variable {run : Text}

theorem IsRun.ne_of_mem (h : IsRun run) {c : Char} (hc : c ∈ run) : c ≠ '@' ∧ c ≠ '#' := by
  rcases h.digits c hc with hdigit | rfl
  · constructor <;>
    · rintro rfl
      exact absurd hdigit (by decide)
  · decide

theorem IsRun.not_blank (h : IsRun run) : ∀ c ∈ '@' :: run, isBlank c = false := by
  refine List.forall_mem_cons.2 ⟨by decide, fun c hc => ?_⟩
  rcases h.digits c hc with hdigit | rfl
  · exact isBlank_of_digitValue hdigit
  · decide

theorem mem_of_suffix {c : Char} {rest : Text} (h : c :: rest <:+ '@' :: run) :
    c = '@' ∧ rest = run ∨ c ∈ run := by
  rcases List.suffix_cons_iff.1 h with heq | hsuffix
  · exact Or.inl (List.cons.inj heq)
  · exact Or.inr (hsuffix.subset List.mem_cons_self)

theorem IsRun.expandFavorites (h : IsRun run) (favorites : List (Text × Text)) :
    Shorthand.expandFavorites favorites ('@' :: run) = '@' :: run := by
  have hsegments : Pattern.segments Shorthand.favoritePattern ('@' :: run) =
      ('@' :: run).map .other := by
    refine Pattern.segmentsFrom_of_forall fun c rest before hsuffix => ?_
    apply Shorthand.favoritePattern_of_ne
    rcases mem_of_suffix hsuffix with ⟨rfl, -⟩ | hmem
    · decide
    · exact (h.ne_of_mem hmem).2
  rw [Shorthand.expandFavorites, Pattern.replaceAll, hsegments, List.flatMap_map]
  exact List.flatMap_singleton' _

theorem IsRun.segments_relativePattern (h : IsRun run) :
    Pattern.segments relativePattern ('@' :: run) = ('@' :: run).map .other := by
  refine Pattern.segmentsFrom_of_forall fun c rest before hsuffix => ?_
  rcases mem_of_suffix hsuffix with ⟨rfl, rfl⟩ | hmem
  · obtain ⟨d, more, rfl, hdigit⟩ := h.first
    have hnone : isRelativeToken ((d :: more).takeWhile isWordChar) = false := by
      rw [List.takeWhile_cons]
      split
      · simp only [isRelativeToken, RelativeDay.ofToken?_of_isDigit hdigit]
      · decide
    simp only [relativePattern, hnone, Bool.and_false, Bool.false_eq_true, if_false]
  · exact relativePattern_of_ne (h.ne_of_mem hmem).1 before rest

theorem IsRun.normalText (h : IsRun run) (today : Date) :
    normalText today ('@' :: run) = '@' :: run := by
  rw [DateMark.normalText, h.segments_relativePattern, List.flatMap_map]
  exact List.flatMap_singleton' _

theorem IsRun.pattern_eq (h : IsRun run) :
    pattern none ('@' :: run) = some (('@' :: run).length, run) := by
  have hrun : run.takeWhile (fun c => isDigit c || c = '/') = run := by
    rw [List.takeWhile_eq_self_iff]
    exact fun c hc => by simpa using h.digits c hc
  simp only [pattern, hrun, h.shape, if_true, List.length_cons]

theorem IsRun.tokens (h : IsRun run) : tokens ('@' :: run) = [run] :=
  Pattern.findAll_of_whole h.pattern_eq

end DateMark

/-! ## What is read off a saved content -/

namespace Workspace

open DateMark Shorthand

variable (w : Workspace)

/-- The date marks that a content has once it is saved, each without its `@`. -/
def savedTokens (content : Text) : List Text :=
  tokens (normalText w.today (expandFavorites w.settings.favorites content))

/-- The words of the relative marks that a content has once favourites are written out. -/
def relativeTokens (content : Text) : List Text :=
  Pattern.findAll relativePattern (expandFavorites w.settings.favorites content)

theorem expandFavorites_append (s : Text) (b : Char) (rest : Text) (hb : isBlank b = true) :
    expandFavorites w.settings.favorites (s ++ b :: rest) =
      expandFavorites w.settings.favorites s ++ b :: expandFavorites w.settings.favorites rest :=
  stopsAtBlank_favoritePattern.replaceAll_append hb _ s rest

theorem partwise_saved {α : Type} {read : Text → List α} (h : Partwise read) :
    Partwise fun s => read (normalText w.today (expandFavorites w.settings.favorites s)) :=
  (h.comp rfl (normalText_append w.today)).comp rfl w.expandFavorites_append

theorem partwise_savedTokens : Partwise w.savedTokens :=
  w.partwise_saved stopsAtBlank_pattern.findAll

theorem partwise_relativeTokens : Partwise w.relativeTokens :=
  stopsAtBlank_relativePattern.findAll.comp rfl w.expandFavorites_append

theorem normalize_eq_ok_iff {content t : Text} :
    w.normalize content = .ok t ↔
      (∀ token ∈ w.relativeTokens content,
        ∃ written, absoluteFor w.today ('@' :: token) token = .ok written) ∧
      t = trimEnd (normalText w.today (expandFavorites w.settings.favorites content)) := by
  rw [normalize, map_eq_ok]
  constructor
  · rintro ⟨t', ht', rfl⟩
    obtain ⟨hreadable, rfl⟩ := DateMark.normalize_eq_ok_iff.1 ht'
    exact ⟨hreadable, rfl⟩
  · rintro ⟨hreadable, rfl⟩
    exact ⟨_, DateMark.normalize_eq_ok_iff.2 ⟨hreadable, rfl⟩, rfl⟩

theorem tokens_normalize {content t : Text} (h : w.normalize content = .ok t) :
    tokens t = w.savedTokens content := by
  obtain ⟨-, rfl⟩ := w.normalize_eq_ok_iff.1 h
  exact stopsAtBlank_pattern.findAll.trimEnd _

theorem savedTokens_run {run : Text} (h : IsRun run) : w.savedTokens ('@' :: run) = [run] := by
  rw [savedTokens, h.expandFavorites, h.normalText, h.tokens]

end Workspace

/-! ## A date mark that is put into a content -/

namespace DateMark

variable {α : Type} {read : Text → List α} {content run t : Text} {today : Date}

def lead (content : Text) : Text :=
  (Pattern.first? pattern content).elim content fun (before, _, _) => before

def behind (content : Text) : Text :=
  (Pattern.first? pattern content).elim [] fun (_, _, rest) => rest

/-- The text is the content with a mark in the place of the first date mark, up to blanks. -/
def IsMarked (content mark t : Text) : Prop :=
  ∀ {α : Type} {read : Text → List α}, Partwise read →
    read t = read (lead content) ++ (read mark ++ read (behind content))

theorem read_splice (h : Partwise read) (before middle rest : Text) :
    read (splice before middle rest) = read before ++ (read middle ++ read rest) := by
  have hfilter : ∀ parts : List Text,
      ((parts.filter fun part => !part.isEmpty).map read).flatten = (parts.map read).flatten := by
    intro parts
    induction parts with
    | nil => rfl
    | cons part more ih =>
        cases part with
        | nil => rw [List.map_cons, List.flatten_cons, h.nil, List.nil_append, ← ih]; rfl
        | cons c part =>
            rw [List.filter_cons_of_pos (by rfl), List.map_cons, List.flatten_cons, ih]
            rfl
  rw [splice, h.joinWith, hfilter]
  simp only [List.map_cons, List.map_nil, List.flatten_cons, List.flatten_nil, List.append_nil,
    h.trimEnd, h.trimStart]

theorem read_append (h : Partwise read) (content mark : Text) :
    read (append content mark) = read content ++ read mark := by
  rw [append, h.trimStart, h.append _ _ _ (by decide), h.trimEnd]

/-- A content with a mark in the place of its first date mark, or at its end if it has none. -/
def remark (content mark : Text) : Text :=
  (Pattern.first? pattern content).elim (append content mark) fun (before, _, rest) =>
    splice before mark rest

theorem isMarked_remark (content mark : Text) : IsMarked content mark (remark content mark) := by
  intro α read h
  unfold remark lead behind
  cases Pattern.first? pattern content with
  | none => simp only [Option.elim_none, read_append h, h.nil, List.append_nil]
  | some found => simp only [Option.elim_some, read_splice h]

theorem tokens_eq_nil_iff : tokens content = [] ↔ Pattern.first? pattern content = none := by
  rw [← List.head?_eq_none_iff, tokens, ← Pattern.map_first?, Option.map_eq_none_iff]

theorem bringTo_eq (today : Date) (content : Text) :
    bringTo today content = remark content (short today) := by
  unfold bringTo remark
  cases Pattern.first? pattern content <;> rfl

theorem remove?_eq (content : Text) :
    remove? content = if tokens content = [] then none else some (remark content []) := by
  simp only [tokens_eq_nil_iff, remove?, remark]
  cases Pattern.first? pattern content <;> rfl

theorem defer_eq (content : Text) (today : Date) :
    defer content today = (nextDay ((targetDate? content today).getD today)).map fun next =>
      remark content (if tokens content = [] then short next else write next today) := by
  simp only [tokens_eq_nil_iff, targetDate?, defer, remark]
  cases Pattern.first? pattern content <;> rfl

theorem nextDay_eq_ok_iff {d next : Date} : nextDay d = .ok next ↔ d.next? = some next := by
  unfold nextDay
  cases d.next? <;> simp

theorem isMarked_bringTo (today : Date) (content : Text) :
    IsMarked content (short today) (bringTo today content) := by
  rw [bringTo_eq]
  exact isMarked_remark content (short today)

theorem isMarked_defer (hmark : tokens content ≠ []) (h : defer content today = .ok t) :
    ∃ next, ((targetDate? content today).getD today).next? = some next ∧
      IsMarked content (write next today) t := by
  rw [defer_eq] at h
  obtain ⟨next, hnext, rfl⟩ := map_eq_ok.1 h
  rw [if_neg hmark]
  exact ⟨next, nextDay_eq_ok_iff.1 hnext, isMarked_remark content (write next today)⟩

end DateMark

/-- What the saved content is meant for: the day of the new mark, unless the text before it has a
date mark once it is saved. -/
theorem Workspace.targetDate?_of_isMarked {w : Workspace} {content run t new : Text}
    (hrun : DateMark.IsRun run) (ht : DateMark.IsMarked content ('@' :: run) t)
    (hnew : w.normalize t = .ok new) :
    ∃ lead, w.normalize (DateMark.lead content) = .ok lead ∧ DateMark.tokens new ≠ [] ∧
      ∀ home, DateMark.targetDate? new home =
        if DateMark.tokens lead = [] then Date.absolute? .ahead home run
        else DateMark.targetDate? lead home := by
  obtain ⟨hreadable, -⟩ := w.normalize_eq_ok_iff.1 hnew
  obtain ⟨lead, hlead⟩ : ∃ lead, w.normalize (DateMark.lead content) = .ok lead := by
    refine ⟨_, w.normalize_eq_ok_iff.2 ⟨fun token htoken => hreadable token ?_, rfl⟩⟩
    rw [ht w.partwise_relativeTokens]
    exact List.mem_append_left _ htoken
  have htokens := w.tokens_normalize hnew
  rw [ht w.partwise_savedTokens, w.savedTokens_run hrun, ← w.tokens_normalize hlead] at htokens
  refine ⟨lead, hlead, by simp [htokens], fun home => ?_⟩
  rw [DateMark.targetDate?_eq, DateMark.targetDate?_eq, htokens]
  split
  · next hnone =>
    rw [hnone]
    rfl
  · next hsome =>
    obtain ⟨token, more, hcons⟩ := List.exists_cons_of_ne_nil hsome
    rw [hcons]
    rfl

end DayJournal
