import DayJournal.Proofs.FilterClauses
import DayJournal.Proofs.Sorting
import DayJournal.Proofs.Words
import Mathlib.Data.List.Induction

/-!
# What a query means

A query is gathered token by token into one filter.  Its meaning is that of its tokens, each taken
as a query of its own: an entry is let through when one of the tokens for kinds lets it through, if
there are any, and all the other tokens do.  The filter demands what its tokens do (`Gathered`), and
each token keeps it so (`Gathered.add`).
-/

namespace DayJournal

open Text

namespace Filter

open Clause

variable {today : Date} {token : Text} {tokens : List Text} {f g : Filter}

/-! ## All tokens -/

/-- The filter of some tokens, completion aside. -/
def gather (today : Date) (tokens : List Text) : Except Fault Filter :=
  tokens.foldlM (fun f token => add today token f (ofToken token)) {}

theorem gather_concat_eq_ok :
    gather today (tokens ++ [token]) = .ok g ↔
      ∃ f, gather today tokens = .ok f ∧ f.add today token (ofToken token) = .ok g := by
  rw [gather, List.foldlM_append, bind_eq_ok]
  simp [gather]

/-- All tokens that set a bound on one side are the same token. -/
structure OneBound (tokens : List Text) : Prop where
  before : ∀ t ∈ tokens, ∀ t' ∈ tokens,
    "@before:".toList <+: t → "@before:".toList <+: t' → t = t'
  after : ∀ t ∈ tokens, ∀ t' ∈ tokens,
    "@after:".toList <+: t → "@after:".toList <+: t' → t = t'

theorem OneBound.of_subset (h : OneBound tokens) {tokens' : List Text}
    (hsub : ∀ t ∈ tokens', t ∈ tokens) : OneBound tokens' where
  before t ht t' ht' := h.before t (hsub t ht) t' (hsub t' ht')
  after t ht t' ht' := h.after t (hsub t ht) t' (hsub t' ht')

theorem OneBound.eq_of_bound (h : OneBound tokens) {side : Bound} {date date' t t' : Text}
    (ht : t ∈ tokens) (ht' : t' ∈ tokens) (hbound : ofToken t = .bound side date)
    (hbound' : ofToken t' = .bound side date') : t = t' := by
  cases side with
  | before => exact h.before t ht t' ht' (prefix_of_bound hbound) (prefix_of_bound hbound')
  | after => exact h.after t ht t' ht' (prefix_of_bound hbound) (prefix_of_bound hbound')

/-- The tokens can be read one by one, and the filter demands just what one of them demands. -/
structure Gathered (today : Date) (tokens : List Text) (f : Filter) : Prop where
  readable : ∀ t ∈ tokens, ∃ d?, (ofToken t).demand? today = .ok d?
  demands : ∀ d, f.Demands d ↔ ∃ t ∈ tokens, (ofToken t).demand? today = .ok (some d)

theorem gathered_nil (today : Date) : Gathered today [] {} where
  readable := by simp
  demands d := by simpa using not_demands_empty d

/-- A bound that is there already has to be set by the same token. -/
theorem Gathered.add (hf : Gathered today tokens f)
    (hagain : f.Occupied (ofToken token) → token ∈ tokens)
    (h : f.add today token (ofToken token) = .ok g) : Gathered today (tokens ++ [token]) g where
  readable t ht := by
    rcases List.mem_append.1 ht with ht | ht
    · exact hf.readable t ht
    · rw [List.mem_singleton.1 ht]
      rcases readable_of_add h with hoccupied | hreadable
      · exact hf.readable token (hagain hoccupied)
      · exact hreadable
  demands d := by
    rw [demands_add h, hf.demands]
    simp only [List.mem_append, List.mem_singleton, or_and_right, exists_or, exists_eq_left]
    by_cases hoccupied : f.Occupied (ofToken token)
    · simp only [hoccupied, not_true_eq_false, false_and, or_false]
      exact (or_iff_left_of_imp fun hd => ⟨token, hagain hoccupied, hd⟩).symm
    · simp only [hoccupied, not_false_eq_true, true_and]

theorem Gathered.exists_bound (hf : Gathered today tokens f) {c : Clause} (h : f.Occupied c) :
    ∃ side date, c = .bound side date ∧ ∃ t ∈ tokens, ∃ date', ofToken t = .bound side date' := by
  cases c with
  | bound side date =>
      obtain ⟨d, hd⟩ := Option.isSome_iff_exists.1 h
      obtain ⟨t, ht, hdemand⟩ := (hf.demands (.bound side d)).1 hd
      exact ⟨side, date, rfl, t, ht, demand?_eq_bound hdemand⟩
  | _ => exact absurd h id

theorem gathered_of_gather (hone : OneBound tokens) (h : gather today tokens = .ok f) :
    Gathered today tokens f := by
  induction tokens using List.reverseRecOn generalizing f with
  | nil =>
      cases h
      exact gathered_nil today
  | append_singleton tokens token ih =>
      obtain ⟨f', hf', h⟩ := gather_concat_eq_ok.1 h
      have hgathered := ih (hone.of_subset (by simp +contextual)) hf'
      refine hgathered.add (fun hoccupied => ?_) h
      obtain ⟨side, date, hbound, t, ht, date', hbound'⟩ := hgathered.exists_bound hoccupied
      rwa [hone.eq_of_bound (by simp) (by simp [ht]) hbound hbound']

theorem exists_gather (h : ∀ t ∈ tokens, ∃ d?, (ofToken t).demand? today = .ok d?) :
    ∃ f, gather today tokens = .ok f := by
  induction tokens using List.reverseRecOn with
  | nil => exact ⟨_, rfl⟩
  | append_singleton tokens token ih =>
      obtain ⟨f, hf⟩ := ih fun t ht => h t (by simp [ht])
      obtain ⟨g, hg⟩ := exists_add (f := f) (Or.inr (h token (by simp))) token
      exact ⟨g, gather_concat_eq_ok.2 ⟨f, hf, hg⟩⟩

/-! ## What is asked for -/

theorem all_askedCompletion {b : Bool} :
    (askedCompletion tokens).all (· == b) = true ↔
      (∃ t ∈ tokens, (ofToken t).asked? = some b) ∨ ∀ t ∈ tokens, (ofToken t).asked? = none := by
  have hmem : ∀ x, x ∈ (tokens.filterMap fun t => (ofToken t).asked?) ↔
      ∃ t ∈ tokens, (ofToken t).asked? = some x := fun x => List.mem_filterMap
  have hnil : (tokens.filterMap fun t => (ofToken t).asked?) = [] ↔
      ∀ t ∈ tokens, (ofToken t).asked? = none := List.filterMap_eq_nil_iff
  rw [← hmem, ← hnil, askedCompletion]
  cases (tokens.filterMap fun t => (ofToken t).asked?) with
  | nil => simp
  | cons asked more =>
      dsimp only
      split
      · next hall =>
        rw [List.all_eq_true] at hall
        simp only [Option.all_some, beq_iff_eq, List.mem_cons, reduceCtorEq, or_false]
        constructor
        · rintro rfl
          exact Or.inl rfl
        · rintro (rfl | hb)
          · rfl
          · exact (by simpa using hall b hb : b = asked).symm
      -- Both open and completed tasks are asked for.
      · next hall =>
        rw [Bool.not_eq_true, List.all_eq_false] at hall
        obtain ⟨other, hother, hne⟩ := hall
        simp only [Option.all_none, List.mem_cons, reduceCtorEq, or_false, true_iff]
        by_cases hb : b = asked
        · exact Or.inl hb
        · refine Or.inr ?_
          have hbo : b = other := by
            revert hb hne
            cases b <;> cases asked <;> cases other <;> simp
          exact hbo ▸ hother

theorem askedCompletion_eq_some_iff {b : Bool} :
    askedCompletion tokens = some b ↔
      (∃ t ∈ tokens, (ofToken t).asked? = some b) ∧ ∀ t ∈ tokens, (ofToken t).asked? ≠ some !b := by
  have honly : askedCompletion tokens = some b ↔
      (askedCompletion tokens).all (· == b) = true ∧
        ¬(askedCompletion tokens).all (· == !b) = true := by
    cases askedCompletion tokens with
    | none => simp
    | some b' => cases b <;> cases b' <;> simp
  have hasked : (∃ t ∈ tokens, (ofToken t).asked? = some b) →
      ¬∀ t ∈ tokens, (ofToken t).asked? = none := by
    rintro ⟨t, ht, hb⟩ hnone
    rw [hnone t ht] at hb
    cases hb
  rw [honly, all_askedCompletion, all_askedCompletion]
  grind

theorem Gathered.kinds (hf : Gathered today tokens f) (k : Kind) :
    k ∈ f.kinds ↔ ∃ t ∈ tokens, ∃ completed, ofToken t = .kind k completed := by
  have hdemands := hf.demands (.kind k)
  simp only [demand?_eq_kind] at hdemands
  exact hdemands

theorem Gathered.asksFor_iff (hf : Gathered today tokens f) {e : Entry} :
    ({ f with completed := askedCompletion tokens } : Filter).asksFor e = true ↔
      (∀ t ∈ tokens, t ∉ kindTokens) ∨
        ∃ t ∈ tokens, ∃ completed, ofToken t = .kind e.kind completed ∧
          completed.all (· == e.completed) = true := by
  have hkinds : f.kinds.isEmpty = true ↔ ∀ t ∈ tokens, t ∉ kindTokens := by
    rw [List.isEmpty_iff, List.eq_nil_iff_forall_not_mem]
    simp only [hf.kinds, mem_kindTokens]
    exact ⟨fun h t ht ⟨k, c, hk⟩ => h k ⟨t, ht, c, hk⟩, fun h k ⟨t, ht, c, hk⟩ => h t ht ⟨k, c, hk⟩⟩
  simp only [asksFor, Bool.and_eq_true, Bool.or_eq_true, hkinds, List.contains_iff_mem, hf.kinds,
    all_askedCompletion, bne_iff_ne]
  constructor
  · rintro ⟨hnone | ⟨t, ht, completed, hkind⟩, hcompleted⟩
    · exact Or.inl hnone
    · refine Or.inr ?_
      by_cases htask : e.kind = .task
      · rw [htask] at hkind
        obtain ⟨b, rfl⟩ := exists_completion hkind
        -- The token that fits is one that asks for just this completion.
        rcases hcompleted.resolve_left (not_not.2 htask) with ⟨t', ht', hasked⟩ | hnone
        · exact ⟨t', ht', _, by rw [htask, asked?_eq_some_iff.1 hasked], by simp⟩
        · exact absurd (asked?_eq_some_iff.2 hkind) (by simp [hnone t ht])
      · exact ⟨t, ht, completed, hkind, by rw [completion_eq_none hkind htask]; rfl⟩
  · rintro (hnone | ⟨t, ht, completed, hkind, hcompleted⟩)
    · exact ⟨Or.inl hnone, Or.inr (Or.inr fun t ht => asked?_eq_none (hnone t ht))⟩
    · refine ⟨Or.inr ⟨t, ht, completed, hkind⟩, ?_⟩
      by_cases htask : e.kind = .task
      · rw [htask] at hkind
        obtain ⟨b, rfl⟩ := exists_completion hkind
        obtain rfl : b = e.completed := by simpa using hcompleted
        exact Or.inr (Or.inl ⟨t, ht, asked?_eq_some_iff.2 hkind⟩)
      · exact Or.inl htask

theorem Gathered.admits_iff (hf : Gathered today tokens f) {e : Entry} {home now : Date} :
    ({ f with completed := askedCompletion tokens } : Filter).admits e home now = true ↔
      ((∀ t ∈ tokens, t ∉ kindTokens) ∨
        ∃ t ∈ tokens, ∃ completed, ofToken t = .kind e.kind completed ∧
          completed.all (· == e.completed) = true) ∧
      ∀ t ∈ tokens, ∀ d, (ofToken t).demand? today = .ok (some d) → d.Holds e home now := by
  have hmeets : ({ f with completed := askedCompletion tokens } : Filter).meets e home now = true ↔
      ∀ d, f.Demands d → d.Holds e home now := meets_iff (f := f)
  rw [admits_eq, Bool.and_eq_true, hf.asksFor_iff, hmeets]
  simp only [hf.demands]
  exact and_congr_right fun _ =>
    ⟨fun h t ht d hd => h d ⟨t, ht, hd⟩, fun h d ⟨t, ht, hd⟩ => h t ht d hd⟩

/-! ## A single token -/

theorem gathered_singleton (h : gather today [token] = .ok f) : Gathered today [token] f :=
  gathered_of_gather ⟨by simp, by simp⟩ h

theorem ofTokens_singleton_iff {e : Entry} {home now : Date} :
    (∃ a, ofTokens today [token] = .ok a ∧ a.admits e home now = true) ↔
      (∃ d?, (ofToken token).demand? today = .ok d?) ∧
      (token ∉ kindTokens ∨ ∃ completed, ofToken token = .kind e.kind completed ∧
        completed.all (· == e.completed) = true) ∧
      ∀ d, (ofToken token).demand? today = .ok (some d) → d.Holds e home now := by
  constructor
  · rintro ⟨a, ha, hadmits⟩
    obtain ⟨f, hf, rfl⟩ := map_eq_ok.1 ha
    have hgathered := gathered_singleton hf
    exact ⟨hgathered.readable token (by simp), by simpa using hgathered.admits_iff.1 hadmits⟩
  · rintro ⟨hreadable, hmeaning⟩
    have hall : ∀ t ∈ [token], ∃ d?, (ofToken t).demand? today = .ok d? := by
      simpa using hreadable
    obtain ⟨f, hf⟩ := exists_gather hall
    exact ⟨_, map_eq_ok.2 ⟨f, hf, rfl⟩,
      (gathered_singleton hf).admits_iff.2 (by simpa using hmeaning)⟩

theorem ofTokens_kind_iff (h : token ∈ kindTokens) {e : Entry} {home now : Date} :
    (∃ a, ofTokens today [token] = .ok a ∧ a.admits e home now = true) ↔
      ∃ completed, ofToken token = .kind e.kind completed ∧
        completed.all (· == e.completed) = true := by
  obtain ⟨k, c, hkind⟩ := mem_kindTokens.1 h
  rw [ofTokens_singleton_iff, hkind]
  simp [h, demand?, Demand.Holds]

theorem ofTokens_other_iff (h : token ∉ kindTokens) {e : Entry} {home now : Date} :
    (∃ a, ofTokens today [token] = .ok a ∧ a.admits e home now = true) ↔
      (∃ d?, (ofToken token).demand? today = .ok d?) ∧
        ∀ d, (ofToken token).demand? today = .ok (some d) → d.Holds e home now := by
  rw [ofTokens_singleton_iff]
  simp [h]

theorem admits_of_unknown {a : Filter} (h : ofTokens today [token] = .ok a)
    (hunknown : a.unknown ≠ []) (e : Entry) (home now : Date) : a.admits e home now = true := by
  obtain ⟨f, hf, rfl⟩ := map_eq_ok.1 h
  have hadd : add today token {} (ofToken token) = .ok f := by
    simpa using hf
  have hnone : (ofToken token).demand? today = .ok none := by
    rcases add_cases hadd with ⟨hoccupied | hnone, -⟩ | ⟨d, -, -, -, hsame, -⟩
    · exact absurd hoccupied not_occupied_empty
    · exact hnone
    · exact absurd hsame hunknown
  refine (gathered_singleton hf).admits_iff.2 ⟨Or.inl ?_, ?_⟩
  · intro t ht hkind
    obtain ⟨k, completed, hclause⟩ := mem_kindTokens.1 hkind
    rw [List.mem_singleton.1 ht] at hclause
    rw [hclause] at hnone
    cases hnone
  · intro t ht d hd
    rw [List.mem_singleton.1 ht, hnone] at hd
    cases hd

/-- Tokens let through what one of those for kinds and each of the others lets through. -/
theorem admits_ofTokens_iff (hone : OneBound tokens) (h : ofTokens today tokens = .ok f) {e : Entry}
    {home now : Date} :
    f.admits e home now = true ↔
      ((∀ t ∈ tokens, t ∉ kindTokens) ∨ ∃ t ∈ tokens, t ∈ kindTokens ∧
          ∃ a, ofTokens today [t] = .ok a ∧ a.admits e home now = true) ∧
        ∀ t ∈ tokens, t ∉ kindTokens →
          ∃ a, ofTokens today [t] = .ok a ∧ a.admits e home now = true := by
  obtain ⟨g, hg, rfl⟩ := map_eq_ok.1 h
  have hgathered := gathered_of_gather hone hg
  have hasks : (∃ t ∈ tokens, ∃ completed, ofToken t = .kind e.kind completed ∧
        completed.all (· == e.completed) = true) ↔
      ∃ t ∈ tokens, t ∈ kindTokens ∧
        ∃ a, ofTokens today [t] = .ok a ∧ a.admits e home now = true := by
    constructor
    · rintro ⟨t, ht, completed, hclause, hcompleted⟩
      have hkind := mem_kindTokens.2 ⟨_, _, hclause⟩
      exact ⟨t, ht, hkind, (ofTokens_kind_iff hkind).2 ⟨completed, hclause, hcompleted⟩⟩
    · rintro ⟨t, ht, hkind, hadmits⟩
      exact ⟨t, ht, (ofTokens_kind_iff hkind).1 hadmits⟩
  have hothers : (∀ t ∈ tokens, ∀ d, (ofToken t).demand? today = .ok (some d) →
        d.Holds e home now) ↔
      ∀ t ∈ tokens, t ∉ kindTokens →
        ∃ a, ofTokens today [t] = .ok a ∧ a.admits e home now = true := by
    constructor
    · intro hall t ht hother
      exact (ofTokens_other_iff hother).2 ⟨hgathered.readable t ht, hall t ht⟩
    · intro hall t ht d hd
      by_cases hkind : t ∈ kindTokens
      · obtain ⟨k, c, hclause⟩ := mem_kindTokens.1 hkind
        rw [hclause] at hd
        cases hd
        trivial
      · exact ((ofTokens_other_iff hkind).1 (hall t ht hkind)).2 d hd
  rw [hgathered.admits_iff, hasks, hothers]

theorem exists_ofTokens_iff (hone : OneBound tokens) :
    (∃ f, ofTokens today tokens = .ok f) ↔
      ∀ t ∈ tokens, ∃ d?, (ofToken t).demand? today = .ok d? := by
  constructor
  · rintro ⟨f, h⟩
    obtain ⟨g, hg, -⟩ := map_eq_ok.1 h
    exact (gathered_of_gather hone hg).readable
  · intro h
    obtain ⟨g, hg⟩ := exists_gather h
    exact ⟨_, map_eq_ok.2 ⟨g, hg, rfl⟩⟩

/-! ## Queries -/

variable {saved favorites : List (Text × Text)} {query : Text}

def Matches (today : Date) (saved favorites : List (Text × Text)) (query : Text) (e : Entry)
    (home now : Date) : Prop :=
  ∃ f, ofQuery today saved favorites query = .ok f ∧ f.admits e home now = true

theorem ofQuery_of_plain (h : Shorthand.Plain saved favorites query) :
    ofQuery today saved favorites query = ofTokens today (words query) := by
  rw [ofQuery, h.tokens]

theorem ofQuery_word (h : Shorthand.Plain saved favorites query) {w : Text} (hw : w ∈ words query) :
    ofQuery today saved favorites w = ofTokens today [w] := by
  have hword := words_of_mem hw
  rw [ofQuery_of_plain (h.of_words (by simp [hword, hw])), hword]

theorem matches_word_iff (h : Shorthand.Plain saved favorites query) {w : Text}
    (hw : w ∈ words query) {e : Entry} {home now : Date} :
    Matches today saved favorites w e home now ↔
      ∃ a, ofTokens today [w] = .ok a ∧ a.admits e home now = true := by
  rw [Matches, ofQuery_word h hw]

theorem mem_rows {document : Text} {now : Date} {r : Row} :
    r ∈ f.rows document now ↔ r ∈ Row.ofDocument document ∧ f.admits r.entry r.day now = true := by
  rw [rows, Row.inOrder, mem_sortBy, List.mem_filter]

theorem rows_eq (f : Filter) (document : Text) (now : Date) :
    f.rows document now = (Row.inOrder (Row.ofDocument document)).filter fun r =>
      f.admits r.entry r.day now :=
  (Row.filter_inOrder _ _).symm

theorem rows_congr (h : ∀ e home now, f.admits e home now = g.admits e home now) (document : Text)
    (now : Date) : f.rows document now = g.rows document now := by
  simp only [rows, h]

theorem rows_and {f₁ f₂ : Filter}
    (h : ∀ e home now, f.admits e home now = (f₁.admits e home now && f₂.admits e home now))
    (document : Text) (now : Date) :
    f.rows document now = (f₁.rows document now).filter (· ∈ f₂.rows document now) := by
  rw [rows_eq f, rows_eq f₁, List.filter_filter]
  refine List.filter_congr fun r hr => ?_
  have hr' : r ∈ Row.ofDocument document := mem_sortBy.1 hr
  simp [mem_rows, hr', h, Bool.and_comm]

/-- A query in which nothing is written out, and with no two bounds on one side, lets through what
one of its tokens for kinds lets through, if it has any, and what each of its other tokens lets
through; a token that is not understood lets everything through.  So neither order nor repetition of
tokens counts, and a query without tokens for kinds that is split in two finds what both parts
find. -/
theorem query_meaning (hplain : Shorthand.Plain saved favorites query)
    (hone : OneBound (words query)) (h : ofQuery today saved favorites query = .ok f) :
    (∀ e home now, f.admits e home now = true ↔
      ((∀ w ∈ words query, w ∉ kindTokens) ∨
          ∃ w ∈ words query, w ∈ kindTokens ∧ Matches today saved favorites w e home now) ∧
        ∀ w ∈ words query, w ∉ kindTokens → Matches today saved favorites w e home now) ∧
    (∀ w ∈ words query, ∀ a, ofQuery today saved favorites w = .ok a → a.unknown ≠ [] →
      ∀ e home now, Matches today saved favorites w e home now) ∧
    (∀ query', (∀ w, w ∈ words query' ↔ w ∈ words query) →
      ∃ f', ofQuery today saved favorites query' = .ok f' ∧
        ∀ document now, f'.rows document now = f.rows document now) ∧
    ∀ query₁ query₂, (∀ w ∈ words query, w ∉ kindTokens) →
      (∀ w, w ∈ words query ↔ w ∈ words query₁ ∨ w ∈ words query₂) →
      ∃ f₁ f₂, ofQuery today saved favorites query₁ = .ok f₁ ∧
        ofQuery today saved favorites query₂ = .ok f₂ ∧
        ∀ document now, f.rows document now =
          (f₁.rows document now).filter (· ∈ f₂.rows document now) := by
  rw [ofQuery_of_plain hplain] at h
  -- Every query whose words are among those of this one can be read, and has its meaning.
  have hpart : ∀ query', (∀ w ∈ words query', w ∈ words query) →
      ∃ f', ofQuery today saved favorites query' = .ok f' ∧
        ∀ e home now, f'.admits e home now = true ↔
          ((∀ w ∈ words query', w ∉ kindTokens) ∨
            ∃ w ∈ words query', w ∈ kindTokens ∧ Matches today saved favorites w e home now) ∧
          ∀ w ∈ words query', w ∉ kindTokens → Matches today saved favorites w e home now := by
    intro query' hsub
    have hone' := hone.of_subset hsub
    have hreadable := (exists_ofTokens_iff hone).1 ⟨f, h⟩
    obtain ⟨f', hf'⟩ := (exists_ofTokens_iff hone').2 fun w hw => hreadable w (hsub w hw)
    refine ⟨f', by rw [ofQuery_of_plain (hplain.of_words hsub), hf'], fun e home now => ?_⟩
    have hmatches : ∀ w ∈ words query', (Matches today saved favorites w e home now ↔
        ∃ a, ofTokens today [w] = .ok a ∧ a.admits e home now = true) :=
      fun w hw => matches_word_iff hplain (hsub w hw)
    rw [admits_ofTokens_iff hone' hf']
    grind
  obtain ⟨f₀, hf₀, hmeaning⟩ := hpart query fun w hw => hw
  rw [ofQuery_of_plain hplain, h] at hf₀
  cases hf₀
  refine ⟨hmeaning, fun w hw a ha hunknown e home now => ?_, fun query' hwords => ?_,
    fun query₁ query₂ hnone hwords => ?_⟩
  · rw [ofQuery_word hplain hw] at ha
    exact (matches_word_iff hplain hw).2 ⟨a, ha, admits_of_unknown ha hunknown e home now⟩
  · obtain ⟨f', hf', hmeaning'⟩ := hpart query' fun w hw => (hwords w).1 hw
    refine ⟨f', hf', rows_congr fun e home now => ?_⟩
    rw [Bool.eq_iff_iff, hmeaning', hmeaning]
    simp only [hwords]
  · obtain ⟨f₁, hf₁, hmeaning₁⟩ := hpart query₁ fun w hw => (hwords w).2 (Or.inl hw)
    obtain ⟨f₂, hf₂, hmeaning₂⟩ := hpart query₂ fun w hw => (hwords w).2 (Or.inr hw)
    refine ⟨f₁, f₂, hf₁, hf₂, rows_and fun e home now => ?_⟩
    rw [Bool.eq_iff_iff, Bool.and_eq_true, hmeaning, hmeaning₁, hmeaning₂]
    grind

/-- Open tasks and notes with a tag, up to three days ago; one token is not understood. -/
theorem query_meaning_tasks_or_notes :
    ∃ f, ofQuery ⟨2026, 1, 5, by decide⟩ [] [] "!t #a !n @x @before:d3".toList = .ok f ∧
      ∀ e home now, f.admits e home now = true ↔
        (Matches ⟨2026, 1, 5, by decide⟩ [] [] "!t".toList e home now ∨
          Matches ⟨2026, 1, 5, by decide⟩ [] [] "!n".toList e home now) ∧
        Matches ⟨2026, 1, 5, by decide⟩ [] [] "#a".toList e home now ∧
        Matches ⟨2026, 1, 5, by decide⟩ [] [] "@before:d3".toList e home now := by
  have hread : (ofQuery ⟨2026, 1, 5, by decide⟩ [] [] "!t #a !n @x @before:d3".toList).toOption =
      some { kinds := [.task, .note], completed := some false, tags := ["a".toList],
             before := some ⟨2026, 1, 2, by decide⟩, unknown := ["@x".toList] } := by decide +kernel
  have hwords : words "!t #a !n @x @before:d3".toList =
      ["!t".toList, "#a".toList, "!n".toList, "@x".toList, "@before:d3".toList] := by decide +kernel
  have hkinds : "!t".toList ∈ kindTokens ∧ "#a".toList ∉ kindTokens ∧ "!n".toList ∈ kindTokens ∧
      "@x".toList ∉ kindTokens ∧ "@before:d3".toList ∉ kindTokens := by decide +kernel
  obtain ⟨hmeaning, hunknown, -⟩ := query_meaning
    (⟨by decide +kernel, by decide +kernel⟩ : Shorthand.Plain [] [] "!t #a !n @x @before:d3".toList)
    (by rw [hwords]; exact ⟨by decide +kernel, by decide +kernel⟩) (eq_ok_of_toOption hread)
  refine ⟨_, eq_ok_of_toOption hread, fun e home now => ?_⟩
  have hx := hunknown "@x".toList (by rw [hwords]; simp) { unknown := ["@x".toList] }
    (eq_ok_of_toOption (by decide +kernel)) (by simp) e home now
  rw [hmeaning, hwords]
  simp only [List.forall_mem_cons, List.exists_mem_cons_iff, List.not_mem_nil, hkinds, hx,
    not_true_eq_false, not_false_eq_true, false_and, true_and, and_true, false_or, or_false,
    exists_false, false_implies, forall_const]

end Filter

end DayJournal
