import DayJournal.Proofs.PlainContent
import DayJournal.Proofs.TagErasure

/-!
# The marks of a line and the tags behind them

Tags are counted by the plain characters behind each mark, and rewritten by the characters there
that spell a letter in any case and form.  This module brings both down to the texts behind the
marks of a line: what is counted (`countP_names`), what is found (`count_found`), and what stands
behind the marks when what was found is rewritten (`counted_replaceAll`).
-/

namespace DayJournal

open Text

namespace Tag

/-- The texts behind the marks of a line, up to its end. -/
def behindMarks : Text → List Text
  | [] => []
  | c :: rest => if c = '#' then rest :: behindMarks rest else behindMarks rest

/-- The letters of the name at the beginning of a text, as tags are counted. -/
def counted (s : Text) : Text := (s.takeWhile isNameChar).map letterOf

/-- The letters of the name at the beginning of a text, as tags are rewritten. -/
def spelled (s : Text) : Text := (s.takeWhile extendsName).map letterOf

variable {tag : Text}

/-! ## Characters of names -/

theorem lt_of_isNameChar {c : Char} (h : isNameChar c = true) : c.toNat < 128 := by
  have := code_of_isNameChar h
  omega

theorem isAlpha_letterOf {c : Char} (h : c.toNat < 128) : (letterOf c).isAlpha = c.isAlpha := by
  rw [letterOf_of_lt h, Char.isAlpha_toLower_eq_isAlpha]

theorem isNameChar_letterOf {c : Char} (h : isNameChar c = true) :
    isNameChar (letterOf c) = true := by
  rw [letterOf_of_lt (lt_of_isNameChar h)]
  by_cases hupper : c.isUpper = true
  · have halpha : c.toLower.isAlpha = true := by
      rw [Char.isAlpha_toLower_eq_isAlpha, Char.isAlpha, hupper, Bool.true_or]
    simp [isNameChar, Char.isAlphanum, halpha]
  · rwa [Char.toLower_eq_of_not_isUpper hupper]

theorem extendsName_iff {c : Char} : extendsName c = true ↔ isNameChar (letterOf c) = true := by
  rw [extendsName, Bool.or_eq_true]
  exact ⟨fun h => h.elim isNameChar_letterOf id, Or.inr⟩

theorem not_mark_of_extendsName {s : Text} (h : ∀ c ∈ s, extendsName c = true) : '#' ∉ s :=
  fun hmem => absurd (h _ hmem) (by decide +kernel)

theorem exists_cons_of_isName (htag : isName tag = true) :
    ∃ c rest, tag = c :: rest ∧ (letterOf c).isAlpha = true := by
  cases tag with
  | nil => cases htag
  | cons c rest =>
      rw [isName, Bool.and_eq_true] at htag
      have hc : isNameChar c = true := by simp [isNameChar, Char.isAlphanum, htag.1]
      exact ⟨c, rest, rfl, (isAlpha_letterOf (lt_of_isNameChar hc)).trans htag.1⟩

theorem lower_of_isName (htag : isName tag = true) : lower tag = tag.map letterOf :=
  lowerFrom_of_lt (fun _ hc => lt_of_isNameChar (forall_isNameChar_of_isName htag _ hc)) []

theorem takeWhile_append_of_ends {p : Char → Bool} {s rest : Text} (hs : ∀ c ∈ s, p c = true)
    (hrest : ∀ c ∈ rest.head?, p c = false) : (s ++ rest).takeWhile p = s := by
  rw [List.takeWhile_append_of_pos hs]
  cases rest with
  | nil => simp
  | cons c rest => simp [hrest c rfl]

theorem endsName_iff {s : Text} : endsName s = true ↔ ∀ c ∈ s.head?, extendsName c = false := by
  cases s <;> simp [endsName]

theorem isName_of_letters {s : Text} (hs : ∀ c ∈ s, isNameChar c = true) (htag : isName tag = true)
    (h : s.map letterOf = tag.map letterOf) : isName s = true := by
  obtain ⟨c, rest, rfl, hc⟩ := exists_cons_of_isName htag
  cases s with
  | nil => cases h
  | cons d more =>
      obtain ⟨hd, hmore⟩ := List.forall_mem_cons.1 hs
      have hletter : letterOf d = letterOf c := (List.cons.inj h).1
      rw [isName, ← isAlpha_letterOf (lt_of_isNameChar hd), hletter, hc, Bool.true_and,
        List.all_eq_true]
      exact hmore

/-! ## The texts behind the marks -/

theorem behindMarks_append {u : Text} (h : '#' ∉ u) (v : Text) :
    behindMarks (u ++ v) = behindMarks v := by
  induction u with
  | nil => rfl
  | cons c u ih =>
      rw [List.mem_cons, not_or] at h
      rw [List.cons_append, behindMarks, if_neg (Ne.symm h.1), ih h.2]

theorem behindMarks_mark (v : Text) : behindMarks ('#' :: v) = v :: behindMarks v := rfl

/-! ## Counting -/

def name? (s : Text) : Option Text :=
  if isName (s.takeWhile isNameChar) then some (s.takeWhile isNameChar) else none

theorem pattern_mark (before : Option Char) (v : Text) :
    pattern before ('#' :: v) = (name? v).map fun name => (name.length + 1, name) := by
  rw [pattern, name?]
  split <;> rfl

theorem pattern_of_ne {c : Char} (h : c ≠ '#') (before : Option Char) (rest : Text) :
    pattern before (c :: rest) = none := by
  unfold pattern
  split
  · next heq => exact absurd (List.cons.inj heq).1 h
  · rfl

theorem names_segmentsFrom (skip : Nat) (before : Option Char) (s : Text) :
    (Pattern.segmentsFrom pattern skip before s).filterMap Segment.meaning? =
      (behindMarks (s.drop skip)).filterMap name? := by
  induction s generalizing skip before with
  | nil => simp [Pattern.segmentsFrom, behindMarks]
  | cons c rest ih =>
      cases skip with
      | succ skip => exact ih skip (some c)
      | zero =>
          rw [Pattern.segmentsFrom, List.drop_zero]
          by_cases hc : c = '#'
          · subst hc
            rw [pattern_mark, behindMarks_mark, List.filterMap_cons]
            cases hname : name? rest with
            | none => exact ih 0 (some '#')
            | some name =>
                -- The characters that are passed over are those of the name, and no mark.
                have htake : name = rest.takeWhile isNameChar := by
                  unfold name? at hname
                  split at hname <;> cases hname
                  rfl
                have hmark : '#' ∉ name := htake ▸ fun hmem =>
                  absurd (List.mem_takeWhile_imp hmem) (by decide)
                have hrest : name ++ rest.drop name.length = rest :=
                  List.prefix_iff_eq_append.1 (htake ▸ List.takeWhile_prefix isNameChar)
                have hbehind : behindMarks rest = behindMarks (rest.drop name.length) := by
                  conv_lhs => rw [← hrest, behindMarks_append hmark]
                rw [hbehind]
                exact congrArg (name :: ·) (ih name.length (some '#'))
          · rw [pattern_of_ne hc, behindMarks, if_neg hc]
            exact ih 0 (some c)

theorem names_eq (s : Text) : names s = (behindMarks s).filterMap name? :=
  names_segmentsFrom 0 none s

theorem isName_of_mem_names {name s : Text} (h : name ∈ names s) : isName name = true := by
  rw [names_eq, List.mem_filterMap] at h
  obtain ⟨v, -, hv⟩ := h
  unfold name? at hv
  split at hv
  · next hname =>
    cases hv
    exact hname
  · cases hv

theorem countP_names (htag : isName tag = true) (s : Text) :
    ((names s).countP fun name => lower name == lower tag) =
      (behindMarks s).countP fun v => counted v == tag.map letterOf := by
  rw [names_eq, List.countP_filterMap]
  refine List.countP_congr fun v _ => ?_
  have hchars : ∀ c ∈ v.takeWhile isNameChar, isNameChar c = true :=
    fun c hc => List.mem_takeWhile_imp hc
  by_cases hname : isName (v.takeWhile isNameChar) = true
  · rw [name?, if_pos hname, counted]
    simp [lower_of_isName htag, lower_of_isName hname]
  · have hne : counted v ≠ tag.map letterOf :=
      fun heq => hname (isName_of_letters hchars htag heq)
    rw [name?, if_neg hname]
    simpa using hne

theorem count_eq_countP (s tag : Text) (completedOnly : Bool) :
    count s tag completedOnly =
      (((lines s).filter (concerns completedOnly)).flatMap names).countP
        fun name => lower name == lower tag := by
  have hfold : ∀ (ls : List Text) (n : Nat), ls.foldl (fun n l =>
      n + ((names l).filter fun name => lower name == lower tag).length) n =
        n + (ls.flatMap names).countP fun name => lower name == lower tag := by
    intro ls
    induction ls with
    | nil => simp
    | cons l more ih =>
        intro n
        rw [List.foldl_cons, ih, List.flatMap_cons, List.countP_append,
          ← List.countP_eq_length_filter, Nat.add_assoc]
  rw [count, hfold, Nat.zero_add]

/-! ## Rewriting -/

/-- What is taken for a tag: a mark with a spelling of the tag behind it that no more of a name
follows, and maybe a gap before it. -/
theorem exists_of_occurrence {withGap : Bool} {before : Option Char} {s : Text} {n : Nat} {a : Unit}
    (htag : isName tag = true) (h : occurrence withGap tag before s = some (n, a)) :
    ∃ gap spelling rest, s = gap ++ '#' :: (spelling ++ rest) ∧
      n = gap.length + 1 + spelling.length ∧ (∀ c ∈ gap, isGap c = true) ∧
      (∀ c ∈ spelling, extendsName c = true) ∧ endsName rest = true ∧
      spelled (spelling ++ rest) = tag.map letterOf := by
  unfold occurrence at h
  have hgap : ∀ c ∈ (if withGap then s.takeWhile fun c => c = ' ' || c = '\t' else []),
      isGap c = true := by
    intro c hc
    cases withGap with
    | true => exact List.mem_takeWhile_imp hc
    | false => exact absurd hc List.not_mem_nil
  have hprefix : (if withGap then s.takeWhile fun c => c = ' ' || c = '\t' else []) <+: s := by
    cases withGap with
    | true => exact List.takeWhile_prefix _
    | false => exact List.nil_prefix
  generalize (if withGap then s.takeWhile fun c => c = ' ' || c = '\t' else []) = gap
    at h hgap hprefix
  have hs : s = gap ++ s.drop gap.length := (List.prefix_iff_eq_append.1 hprefix).symm
  dsimp only at h
  split at h
  · next v hdrop =>
    split at h
    · next behind hbehind =>
      split at h
      · next hends =>
        obtain ⟨spelling, rfl, hletters⟩ := afterIgnoringCase?_eq_some_iff.1 hbehind
        have hlength : spelling.length = tag.length := by
          rw [← List.length_map (f := letterOf), hletters, List.length_map]
        have hextends : ∀ c ∈ spelling, extendsName c = true := by
          intro c hc
          have hmem : letterOf c ∈ tag.map letterOf := hletters ▸ List.mem_map_of_mem hc
          obtain ⟨d, hd, hdc⟩ := List.mem_map.1 hmem
          rw [extendsName_iff, ← hdc]
          exact isNameChar_letterOf (forall_isNameChar_of_isName htag d hd)
        cases h
        refine ⟨gap, spelling, behind, by rw [hs, hdrop], by rw [hlength], hgap, hextends,
          hends, ?_⟩
        rw [spelled, takeWhile_append_of_ends hextends (endsName_iff.1 hends), hletters]
      · cases h
    · cases h
  · cases h

theorem occurrence_mark_eq_none_iff (htag : isName tag = true) (withGap : Bool)
    (before : Option Char) (v : Text) :
    occurrence withGap tag before ('#' :: v) = none ↔ spelled v ≠ tag.map letterOf := by
  constructor
  · intro h hspelled
    have hgap : (if withGap then ('#' :: v).takeWhile isGap else []) = [] := by
      cases withGap <;> rfl
    have hrest : ∀ c ∈ (v.dropWhile extendsName).head?, extendsName c = false := by
      intro c hc
      have hnot := List.head?_dropWhile_not extendsName v
      rw [Option.mem_def.1 hc] at hnot
      simpa using hnot
    have hafter : afterIgnoringCase? tag v = some (v.dropWhile extendsName) :=
      afterIgnoringCase?_eq_some_iff.2
        ⟨v.takeWhile extendsName, List.takeWhile_append_dropWhile.symm, hspelled⟩
    unfold isGap at hgap
    simp only [occurrence, hgap, List.length_nil, List.drop_zero, hafter, endsName_iff.2 hrest,
      if_true] at h
    cases h
  · intro hspelled
    rw [Option.eq_none_iff_forall_not_mem]
    rintro ⟨n, a⟩ h
    obtain ⟨gap, spelling, rest, hs, -, hgap, -, -, hletters⟩ := exists_of_occurrence htag h
    cases gap with
    | nil =>
        obtain rfl : v = spelling ++ rest := (List.cons.inj hs).2
        exact hspelled hletters
    | cons c gap =>
        obtain rfl : '#' = c := (List.cons.inj hs).1
        exact absurd (hgap '#' (by simp)) (by decide)

theorem behindMarks_of_occurrence {withGap : Bool} {before : Option Char} {c : Char} {rest : Text}
    {n : Nat} {a : Unit} (htag : isName tag = true)
    (h : occurrence withGap tag before (c :: rest) = some (n, a)) :
    isNameChar c = false ∧ endsName (rest.drop (n - 1)) = true ∧ ∃ v,
      spelled v = tag.map letterOf ∧
        behindMarks (c :: rest) = v :: behindMarks (rest.drop (n - 1)) := by
  obtain ⟨gap, spelling, behind, hs, rfl, hgap, hspelling, hends, hspelled⟩ :=
    exists_of_occurrence htag h
  have hdrop : rest.drop (gap.length + 1 + spelling.length - 1) = behind := by
    have hbehind : (c :: rest).drop (gap.length + 1 + spelling.length) = behind := by
      have hcut : gap ++ '#' :: (spelling ++ behind) = (gap ++ '#' :: spelling) ++ behind := by simp
      rw [hs, hcut, List.drop_left' (by simp; omega)]
    rw [← hbehind, ← List.drop_succ_cons (a := c)]
    congr 1
    omega
  have hmark : '#' ∉ gap := fun hmem => absurd (hgap _ hmem) (by decide)
  rw [hdrop]
  refine ⟨?_, hends, spelling ++ behind, hspelled, ?_⟩
  · cases gap with
    | nil =>
        obtain rfl := (List.cons.inj hs).1
        decide
    | cons d gap =>
        obtain rfl := (List.cons.inj hs).1
        have hc := hgap c (by simp)
        simp only [isGap, Bool.or_eq_true, decide_eq_true_eq] at hc
        rcases hc with rfl | rfl <;> decide
  · rw [hs, behindMarks_append hmark, behindMarks_mark,
      behindMarks_append (not_mark_of_extendsName hspelling)]

theorem found_segmentsFrom (htag : isName tag = true) (withGap : Bool) (skip : Nat)
    (before : Option Char) (s : Text) :
    ((Pattern.segmentsFrom (occurrence withGap tag) skip before s).filterMap
      Segment.meaning?).length =
      (behindMarks (s.drop skip)).countP fun v => spelled v == tag.map letterOf := by
  induction s generalizing skip before with
  | nil => simp [Pattern.segmentsFrom, behindMarks]
  | cons c rest ih =>
      cases skip with
      | succ skip => exact ih skip (some c)
      | zero =>
          rw [Pattern.segmentsFrom, List.drop_zero]
          split
          · next n a hfound =>
            obtain ⟨-, -, v, hspelled, hbehind⟩ := behindMarks_of_occurrence htag hfound
            rw [hbehind, List.countP_cons_of_pos (by simpa using hspelled), ← ih (n - 1) (some c)]
            rfl
          · next hnone =>
            by_cases hc : c = '#'
            · subst hc
              have hne := (occurrence_mark_eq_none_iff htag withGap before rest).1 hnone
              rw [behindMarks_mark, List.countP_cons_of_neg (by simpa using hne)]
              exact ih 0 (some '#')
            · rw [behindMarks, if_neg hc]
              exact ih 0 (some c)

theorem count_found (htag : isName tag = true) (withGap : Bool) (s : Text) :
    (Pattern.findAll (occurrence withGap tag) s).length =
      (behindMarks s).countP fun v => spelled v == tag.map letterOf :=
  found_segmentsFrom htag withGap 0 none s

def rewrittenSegment (newName : Option Text) : Segment Unit → Text
  | .other c => [c]
  | .found _ _ => written newName

theorem replaceAll_eq (p : Pattern Unit) (newName : Option Text) (s : Text) :
    p.replaceAll (fun _ _ => written newName) s =
      (p.segments s).flatMap (rewrittenSegment newName) := by
  rw [Pattern.replaceAll]
  congr 1
  funext segment
  cases segment <;> rfl

/-- What is counted behind a mark once the tag there is rewritten, if the mark stays. -/
def rewritten (tag : Text) (newName : Option Text) (v : Text) : List Text :=
  if spelled v = tag.map letterOf then (newName.map (List.map letterOf)).toList else [counted v]

theorem rewritten_of_eq {newName : Option Text} {v : Text} (h : spelled v = tag.map letterOf) :
    rewritten tag newName v = (newName.map (List.map letterOf)).toList := if_pos h

theorem rewritten_of_ne {newName : Option Text} {v : Text} (h : spelled v ≠ tag.map letterOf) :
    rewritten tag newName v = [counted v] := if_neg h

theorem counted_segmentsFrom {newName : Option Text} (htag : isName tag = true)
    (hnew : ∀ name ∈ newName, isName name = true) (withGap : Bool) (skip : Nat)
    (before : Option Char) (s : Text) :
    ((Pattern.segmentsFrom (occurrence withGap tag) skip before s).flatMap
        (rewrittenSegment newName)).takeWhile isNameChar = (s.drop skip).takeWhile isNameChar ∧
      (behindMarks ((Pattern.segmentsFrom (occurrence withGap tag) skip before s).flatMap
        (rewrittenSegment newName))).map counted =
        (behindMarks (s.drop skip)).flatMap (rewritten tag newName) := by
  -- The first part is what keeps the names before a mark, and the new ones, as they are.
  induction s generalizing skip before with
  | nil => simp [Pattern.segmentsFrom, behindMarks]
  | cons c rest ih =>
      cases skip with
      | succ skip => exact ih skip (some c)
      | zero =>
          rw [Pattern.segmentsFrom, List.drop_zero]
          split
          · next n a hfound =>
            obtain ⟨hc, hends, v, hspelled, hbehind⟩ := behindMarks_of_occurrence htag hfound
            obtain ⟨hname, hmarks⟩ := ih (n - 1) (some c)
            have hstop : (rest.drop (n - 1)).takeWhile isNameChar = [] :=
              takeWhile_append_of_ends (s := []) (by simp) fun d hd =>
                (Bool.or_eq_false_iff.1 (endsName_iff.1 hends d hd)).1
            rw [hstop] at hname
            rw [hbehind, List.flatMap_cons, List.flatMap_cons, rewritten_of_eq hspelled, ← hmarks,
              List.takeWhile_cons_of_neg (by simp [hc])]
            cases newName with
            | none => exact ⟨hname, rfl⟩
            | some name =>
                have hchars := forall_isNameChar_of_isName (hnew name rfl)
                have hmark : '#' ∉ name := fun hmem => absurd (hchars _ hmem) (by decide)
                refine ⟨rfl, ?_⟩
                have hcounted : ∀ out : Text, out.takeWhile isNameChar = [] →
                    counted (name ++ out) = name.map letterOf := fun out hout => by
                  rw [counted, List.takeWhile_append_of_pos hchars, hout, List.append_nil]
                simp only [rewrittenSegment, written, List.cons_append, behindMarks_mark,
                  behindMarks_append hmark, List.map_cons, hcounted _ hname]
                rfl
          · next hnone =>
            obtain ⟨hname, hmarks⟩ := ih 0 (some c)
            rw [List.drop_zero] at hname hmarks
            simp only [List.flatMap_cons, rewrittenSegment, List.singleton_append]
            refine ⟨?_, ?_⟩
            · rw [List.takeWhile_cons, List.takeWhile_cons, hname]
            · by_cases hc : c = '#'
              · subst hc
                have hne := (occurrence_mark_eq_none_iff htag withGap before rest).1 hnone
                rw [behindMarks_mark, behindMarks_mark, List.map_cons, List.flatMap_cons, hmarks,
                  rewritten_of_ne hne, counted, hname]
                rfl
              · rw [behindMarks, if_neg hc, behindMarks, if_neg hc, hmarks]

/-- Where a tag is rewritten, the new name is counted behind the marks that had the tag behind
them, and what was counted there stays behind the others. -/
theorem counted_replaceAll {newName : Option Text} (htag : isName tag = true)
    (hnew : ∀ name ∈ newName, isName name = true) (withGap : Bool) (s : Text) :
    (behindMarks ((occurrence withGap tag).replaceAll (fun _ _ => written newName) s)).map counted =
      (behindMarks s).flatMap (rewritten tag newName) := by
  rw [replaceAll_eq]
  exact (counted_segmentsFrom htag hnew withGap 0 none s).2

end Tag

end DayJournal
