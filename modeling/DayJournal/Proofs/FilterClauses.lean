import DayJournal.Proofs.Outcome
import DayJournal.Query.Match
import Mathlib.Data.List.Basic

/-!
# Clauses

Which clauses a token can stand for, and what a clause adds to a filter.  A filter is described by
what it demands (`Demands`); a clause is refused, or the filter demands one thing more, and
which tokens were refused before makes no difference to that (`add_cases`).
-/

namespace DayJournal

open Text

/-- One thing that a filter asks of an entry, completion aside. -/
inductive Demand where
  | kind (k : Kind)
  | bound (side : Bound) (date : Date)
  | overdue
  | later
  | recurring
  | tag (name : Text)
  | term (term : Text)
  | withoutKind (k : Kind)
  | withoutTag (name : Text)
  | withoutTerm (term : Text)

/-- Whether an entry meets a demand.  Of the kinds that are asked for it has to be only one. -/
def Demand.Holds (e : Entry) (home now : Date) : Demand → Prop
  | kind _ => True
  | bound .before date => Filter.entryDate e home ≤ date
  | bound .after date => date ≤ Filter.entryDate e home
  | overdue => Filter.isOverdue e home now = true
  | later => Filter.isLater e home now = true
  | recurring => Repetition.isIn e.content = true
  | tag name => Filter.hasTag e name = true
  | term word => Filter.hasTerm e word = true
  | withoutKind k => e.kind ≠ k
  | withoutTag name => Filter.hasTag e name = false
  | withoutTerm word => Filter.hasTerm e word = false

namespace Clause

/-- What a clause demands, if it is understood. -/
def demand? (today : Date) : Clause → Except Fault (Option Demand)
  | unknown => .ok none
  | bound side date => (Date.ofToken .back today date).map fun d? => d?.map (Demand.bound side)
  | overdue => .ok (some .overdue)
  | later => .ok (some .later)
  | recurring => .ok (some .recurring)
  | kind k _ => .ok (some (.kind k))
  | tag name => .ok (some (.tag name))
  | term word => .ok (some (.term word))
  | withoutKind k => .ok (some (.withoutKind k))
  | withoutTag name => .ok (some (.withoutTag name))
  | withoutTerm word => .ok (some (.withoutTerm word))

def kindTokens : List Text := kindWords.map fun word => '!' :: word.1

variable {token date : Text} {k : Kind} {c : Option Bool} {side : Bound}

theorem dated_cases (s : Text) :
    (∃ side date, s = side.word ++ date ∧ dated s = bound side date) ∨
      dated s ∈ [overdue, later, recurring, unknown] := by
  unfold dated
  cases hfound : [Bound.before, .after].findSome? fun side =>
      (Text.after? side.word s).map (bound side) with
  | none =>
      refine Or.inr ?_
      simp only [Option.getD_none]
      split_ifs <;> simp
  | some clause =>
      obtain ⟨side, -, hside⟩ := List.exists_of_findSome?_eq_some hfound
      obtain ⟨date, hdate, rfl⟩ := Option.map_eq_some_iff.1 hside
      exact Or.inl ⟨side, date, (List.isPrefixOf?_eq_some_iff_append_eq.1 hdate).symm, rfl⟩

theorem excluding_cases (s : Text) :
    excluding s = unknown ∨ (∃ name, excluding s = withoutTag name) ∨
      (∃ k, excluding s = withoutKind k) ∨ ∃ term, excluding s = withoutTerm term := by
  unfold excluding
  split
  · exact Or.inl rfl
  · next name => exact Or.inr (Or.inl ⟨name, rfl⟩)
  · next word =>
    cases excludedKind? word with
    | none => exact Or.inl rfl
    | some k => exact Or.inr (Or.inr (Or.inl ⟨k, rfl⟩))
  · exact Or.inr (Or.inr (Or.inr ⟨_, rfl⟩))

/-- Bounds and kinds are written behind an `@` and a `!`; every other clause is neither. -/
theorem ofToken_cases (token : Text) :
    (∃ side date, token = '@' :: (side.word ++ date) ∧ ofToken token = bound side date) ∨
      (∃ word k c, token = '!' :: word ∧ (word, k, c) ∈ kindWords ∧ ofToken token = kind k c) ∨
      (∀ side date, ofToken token ≠ bound side date) ∧ ∀ k c, ofToken token ≠ kind k c := by
  unfold ofToken
  split
  · simp
  · split
    · next s _ =>
      rcases dated_cases s with ⟨side, date, rfl, h⟩ | h
      · exact Or.inl ⟨side, date, rfl, h⟩
      · refine Or.inr (Or.inr ⟨fun side date heq => ?_, fun k c heq => ?_⟩) <;> simp [heq] at h
    · next word _ =>
      cases hlookup : kindWords.lookup word with
      | none => simp
      | some found =>
          obtain ⟨before, behind, hwords, -⟩ := List.lookup_eq_some_iff.1 hlookup
          exact Or.inr (Or.inl ⟨word, found.1, found.2, rfl, by rw [hwords]; simp, rfl⟩)
    · split <;> simp
    · cases Text.after? "not:".toList token with
      | none => simp
      | some rest =>
          rcases excluding_cases rest with h | ⟨_, h⟩ | ⟨_, h⟩ | ⟨_, h⟩ <;> simp [h]

theorem ofToken_eq_kind (h : ofToken token = kind k c) :
    ∃ word, token = '!' :: word ∧ (word, k, c) ∈ kindWords := by
  rcases ofToken_cases token with ⟨side, date, -, hbound⟩ | ⟨word, k', c', htoken, hword, hkind⟩ |
    ⟨-, hother⟩
  · cases h.symm.trans hbound
  · cases h.symm.trans hkind
    exact ⟨word, htoken, hword⟩
  · exact absurd h (hother k c)

theorem prefix_of_bound (h : ofToken token = bound side date) : '@' :: side.word <+: token := by
  rcases ofToken_cases token with ⟨side', date', rfl, hbound⟩ | ⟨word, k, c, -, -, hkind⟩ |
    ⟨hother, -⟩
  · cases h.symm.trans hbound
    exact ⟨date, rfl⟩
  · cases h.symm.trans hkind
  · exact absurd h (hother side date)

theorem mem_kindTokens : token ∈ kindTokens ↔ ∃ k c, ofToken token = kind k c := by
  constructor
  · intro h
    have hall : ∀ word ∈ kindWords, ofToken ('!' :: word.1) = kind word.2.1 word.2.2 := by
      decide +kernel
    obtain ⟨word, hword, rfl⟩ := List.mem_map.1 h
    exact ⟨_, _, hall word hword⟩
  · rintro ⟨k, c, h⟩
    obtain ⟨word, rfl, hword⟩ := ofToken_eq_kind h
    exact List.mem_map_of_mem hword

/-- Who asks for tasks, and nobody else, asks for a completion. -/
theorem isSome_completion (h : ofToken token = kind k c) : c.isSome = (k == .task) := by
  have hall : ∀ word ∈ kindWords, word.2.2.isSome = (word.2.1 == .task) := by decide
  obtain ⟨word, -, hword⟩ := ofToken_eq_kind h
  exact hall _ hword

theorem exists_completion (h : ofToken token = kind .task c) : ∃ b, c = some b :=
  Option.isSome_iff_exists.1 (by rw [isSome_completion h]; rfl)

theorem completion_eq_none (h : ofToken token = kind k c) (hk : k ≠ .task) : c = none := by
  rw [← Option.not_isSome_iff_eq_none, isSome_completion h]
  simpa using hk

theorem asked?_eq_some_iff {b : Bool} :
    (ofToken token).asked? = some b ↔ ofToken token = kind .task (some b) := by
  constructor
  · intro h
    cases hclause : ofToken token with
    | kind k c =>
        rw [hclause] at h
        obtain rfl : c = some b := h
        have hk : k = .task := by simpa using (isSome_completion hclause).symm
        rw [hk]
    | _ =>
        rw [hclause] at h
        cases h
  · intro h
    rw [h]
    rfl

theorem asked?_eq_none (h : token ∉ kindTokens) : (ofToken token).asked? = none := by
  cases hclause : ofToken token with
  | kind k c => exact absurd (mem_kindTokens.2 ⟨k, c, hclause⟩) h
  | _ => rfl

theorem demand?_eq_kind {today : Date} {clause : Clause} :
    clause.demand? today = .ok (some (.kind k)) ↔ ∃ completed, clause = kind k completed := by
  cases clause with
  | bound side date => simp [demand?, map_eq_ok]
  | _ => simp [demand?]

theorem demand?_eq_bound {today : Date} {clause : Clause} {d : Date}
    (h : clause.demand? today = .ok (some (.bound side d))) : ∃ date, clause = bound side date := by
  cases clause with
  | bound side' date =>
      obtain ⟨d?, -, hd⟩ := map_eq_ok.1 h
      obtain ⟨d', -, hd'⟩ := Option.map_eq_some_iff.1 hd
      cases hd'
      exact ⟨date, rfl⟩
  | _ => simp [demand?] at h

end Clause

namespace Filter

open Clause

variable {today : Date} {token : Text} {tokens : List Text} {f g : Filter} {c : Clause}

/-! ## The two halves of a filter -/

/-- Whether kind and completion of an entry are among those asked for. -/
def asksFor (f : Filter) (e : Entry) : Bool :=
  (f.kinds.isEmpty || f.kinds.contains e.kind) &&
    (e.kind != .task || f.completed.all (· == e.completed))

/-- Whether an entry meets all the conditions that have nothing to do with what is asked for. -/
def meets (f : Filter) (e : Entry) (home now : Date) : Bool :=
  !f.excludedKinds.contains e.kind && f.admitsDate e home &&
    (!f.overdue || isOverdue e home now) && (!f.later || isLater e home now) &&
    (!f.recurring || Repetition.isIn e.content) &&
    f.tags.all (hasTag e) && f.excludedTags.all (fun name => !hasTag e name) &&
    f.terms.all (hasTerm e) && f.excludedTerms.all (fun term => !hasTerm e term)

theorem admits_eq (f : Filter) (e : Entry) (home now : Date) :
    f.admits e home now = (f.asksFor e && f.meets e home now) := by
  simp only [admits, admitsKind, asksFor, meets, Bool.and_assoc]
  congr 1
  rw [Bool.and_left_comm]

/-! ## What is demanded -/

def Demands (f : Filter) : Demand → Prop
  | .kind k => k ∈ f.kinds
  | .bound side date => f.bound? side = some date
  | .overdue => f.overdue = true
  | .later => f.later = true
  | .recurring => f.recurring = true
  | .tag name => name ∈ f.tags
  | .term word => word ∈ f.terms
  | .withoutKind k => k ∈ f.excludedKinds
  | .withoutTag name => name ∈ f.excludedTags
  | .withoutTerm word => word ∈ f.excludedTerms

theorem meets_iff {e : Entry} {home now : Date} :
    f.meets e home now = true ↔ ∀ d, f.Demands d → d.Holds e home now := by
  simp only [meets, admitsDate, Bool.and_eq_true, Bool.or_eq_true, Bool.not_eq_true',
    List.all_eq_true, Option.all_eq_true, decide_eq_true_eq, List.contains_eq_mem,
    decide_eq_false_iff_not, and_assoc]
  constructor
  · rintro h (k | ⟨_ | _, date⟩ | _ | _ | _ | name | term | k | name | term) hd
    all_goals simp only [Demands, bound?] at hd
    all_goals simp only [Demand.Holds]
    all_goals grind
  · intro h
    have hoverdue := h .overdue
    have hlater := h .later
    have hrecurring := h .recurring
    simp only [Demands, Demand.Holds] at hoverdue hlater hrecurring
    refine ⟨fun hk => h (.withoutKind _) hk rfl, fun d hd => h (.bound .before d) hd,
      fun d hd => h (.bound .after d) hd, ?_, ?_, ?_, fun name => h (.tag name),
      fun name => h (.withoutTag name), fun word => h (.term word),
      fun word => h (.withoutTerm word)⟩
    all_goals grind

theorem not_demands_empty (d : Demand) : ¬Demands {} d := by
  cases d with
  | bound side => cases side <;> simp [Demands, bound?]
  | _ => simp [Demands]

theorem demands_with {completed : Option Bool} {unknown : List Text} {d : Demand} :
    ({ f with completed, unknown } : Filter).Demands d ↔ f.Demands d := by
  cases d with
  | bound side => cases side <;> rfl
  | _ => rfl

theorem bound?_setBound (x : Option Date) (side other : Bound) :
    (f.setBound x side).bound? other = if other = side then x else f.bound? other := by
  cases side <;> cases other <;> rfl

theorem demands_setBound {side : Bound} {date : Date} (hnone : f.bound? side = none) {d : Demand} :
    (f.setBound (some date) side).Demands d ↔ f.Demands d ∨ d = .bound side date := by
  cases d with
  | bound other date' =>
      simp only [Demands, bound?_setBound, Demand.bound.injEq]
      split
      · next heq =>
        rw [heq, hnone]
        simp [eq_comm]
      · next hne => simp [hne]
  | _ => cases side <;> simp [Demands, setBound]

theorem demands_kind (k : Kind) {d : Demand} :
    (if f.kinds.contains k then f else { f with kinds := f.kinds ++ [k] }).Demands d ↔
      f.Demands d ∨ d = .kind k := by
  by_cases hk : f.kinds.contains k = true
  · rw [if_pos hk]
    rw [List.contains_iff_mem] at hk
    exact (or_iff_left_of_imp (by rintro rfl; exact hk)).symm
  · rw [if_neg hk]
    cases d with
    | bound side => cases side <;> simp [Demands, bound?]
    | _ => simp [Demands]

/-! ## One more clause -/

/-- The clause is a bound on a side that has one. -/
def Occupied (f : Filter) : Clause → Prop
  | .bound side _ => (f.bound? side).isSome = true
  | _ => False

theorem not_occupied_empty : ¬Occupied {} c := by
  cases c with
  | bound side date => cases side <;> simp [Occupied, bound?]
  | _ => exact id

/-- The clause is not understood behind those of the filter. -/
def Refused (today : Date) (f : Filter) (c : Clause) : Prop :=
  f.Occupied c ∨ c.demand? today = .ok none

theorem not_refused {d : Demand} (hfree : ¬f.Occupied c) (hd : c.demand? today = .ok (some d)) :
    ¬Refused today f c := by
  rintro (hoccupied | hnone)
  · exact hfree hoccupied
  · rw [hd] at hnone
    cases hnone

def withUnknown (f : Filter) (tokens : List Text) : Filter := { f with unknown := tokens }

/-- A bound is set on a free side, at the date that is written, or it is refused. -/
theorem add_bound_cases {side : Bound} {date : Text}
    (h : f.add today token (.bound side date) = .ok g) :
    (Refused today f (.bound side date) ∧ g = f.addUnknown token) ∨
      ∃ d, g = f.setBound (some d) side ∧ f.bound? side = none ∧
        Date.ofToken .back today date = .ok (some d) := by
  rw [add, addBound] at h
  split at h
  · next hsome =>
    cases h
    exact Or.inl ⟨Or.inl hsome, rfl⟩
  · next hnone =>
    obtain ⟨d, hd, rfl⟩ := map_eq_ok.1 h
    cases d with
    | none => exact Or.inl ⟨Or.inr (by rw [demand?, hd]; rfl), rfl⟩
    | some d => exact Or.inr ⟨d, rfl, by simpa using hnone, hd⟩

/-- A clause is refused and its token is kept, or the filter demands one thing more, and then it
makes no difference which tokens were refused before. -/
theorem add_cases (h : f.add today token c = .ok g) :
    (Refused today f c ∧ g = f.addUnknown token) ∨
      ∃ d, ¬Refused today f c ∧ c.demand? today = .ok (some d) ∧
        (∀ d', g.Demands d' ↔ f.Demands d' ∨ d' = d) ∧ g.unknown = f.unknown ∧
        ∀ refused, (f.withUnknown refused).add today token c = .ok (g.withUnknown refused) := by
  cases c with
  | unknown =>
      cases h
      exact Or.inl ⟨Or.inr rfl, rfl⟩
  | bound side date =>
      rcases add_bound_cases h with hrefused | ⟨d, rfl, hnone, hd⟩
      · exact Or.inl hrefused
      · have hdemand : (Clause.bound side date).demand? today = .ok (some (.bound side d)) := by
          rw [demand?, hd]
          rfl
        refine Or.inr ⟨.bound side d, not_refused (by simp [Occupied, hnone]) hdemand, hdemand,
          fun d' => demands_setBound hnone, by cases side <;> rfl, fun refused => ?_⟩
        have hfree : (f.withUnknown refused).bound? side = none := by
          cases side <;> exact hnone
        rw [add, addBound, hfree, hd]
        cases side <;> rfl
  | kind k completed =>
      cases h
      refine Or.inr ⟨.kind k, not_refused id rfl, rfl, fun d => demands_kind k, by split <;> rfl,
        fun refused => ?_⟩
      show Except.ok (if f.kinds.contains k then f.withUnknown refused
        else { f.withUnknown refused with kinds := f.kinds ++ [k] }) = _
      split <;> rfl
  | _ =>
      cases h
      refine Or.inr ⟨_, not_refused id rfl, rfl, fun d => ?_, rfl, fun refused => rfl⟩
      cases d with
      | bound side => cases side <;> simp [Demands, bound?]
      | _ => simp [Demands]

theorem demands_add (h : f.add today token c = .ok g) {d : Demand} :
    g.Demands d ↔ f.Demands d ∨ ¬f.Occupied c ∧ c.demand? today = .ok (some d) := by
  rcases add_cases h with ⟨hoccupied | hnone, rfl⟩ | ⟨d', hfree, hd, hall, -, -⟩
  · refine demands_with.trans (or_iff_left ?_).symm
    exact fun hd => hd.1 hoccupied
  · refine demands_with.trans (or_iff_left ?_).symm
    rw [hnone]
    exact fun hd => nomatch hd.2
  · rw [hall, hd, and_iff_right fun hoccupied => hfree (Or.inl hoccupied), Except.ok.injEq,
      Option.some_inj, eq_comm (a := d)]

theorem readable_of_add (h : f.add today token c = .ok g) :
    f.Occupied c ∨ ∃ d?, c.demand? today = .ok d? := by
  rcases add_cases h with ⟨hoccupied | hnone, -⟩ | ⟨d, -, hd, -⟩
  · exact Or.inl hoccupied
  · exact Or.inr ⟨none, hnone⟩
  · exact Or.inr ⟨some d, hd⟩

theorem exists_add (h : f.Occupied c ∨ ∃ d?, c.demand? today = .ok d?) (token : Text) :
    ∃ g, f.add today token c = .ok g := by
  cases c with
  | bound side date =>
      rw [add, addBound]
      split
      · exact ⟨_, rfl⟩
      · next hfree =>
        obtain ⟨d?, hd⟩ := h.resolve_left hfree
        obtain ⟨date?, hdate, -⟩ := map_eq_ok.1 hd
        exact ⟨_, map_eq_ok.2 ⟨date?, hdate, rfl⟩⟩
  | _ => exact ⟨_, rfl⟩

end Filter

end DayJournal
