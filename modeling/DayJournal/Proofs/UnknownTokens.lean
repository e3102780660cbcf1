import DayJournal.Proofs.FilterMeaning

/-!
# Tokens that are not understood

A filter keeps the tokens that were not understood, and they have no other effect.  A token that is
taken is taken in the same way whatever was refused before it (`add_cases`), so the tokens that are
left when the refused ones are taken out give the same filter (`gather_kept`).  Of equal bounds it
does not matter which one is taken out: a bound may be read before or behind tokens that leave it
alone (`gather_moved`).  Main statement: a token is reported, or what it demands is in the filter,
and then it is there also when nothing is reported (`unknown_inert`).
-/

namespace DayJournal

open Text

/-! ## Rows of tokens put into one -/

/-- The third row has the elements of the first two, those of each in their order. -/
inductive Interleave {α : Type} : List α → List α → List α → Prop where
  | nil : Interleave [] [] []
  | left {x : α} {xs ys zs : List α} : Interleave xs ys zs → Interleave (x :: xs) ys (x :: zs)
  | right {y : α} {xs ys zs : List α} : Interleave xs ys zs → Interleave xs (y :: ys) (y :: zs)

namespace Interleave

variable {α β : Type} {xs ys zs : List α} {a : α}

theorem right_sublist (h : Interleave xs ys zs) : ys.Sublist zs := by
  induction h with
  | nil => exact .slnil
  | left _ ih => exact ih.cons _
  | right _ ih => exact ih.cons_cons _

theorem concat_cases (h : Interleave xs ys (zs ++ [a])) :
    (∃ xs', xs = xs' ++ [a] ∧ Interleave xs' ys zs) ∨
      ∃ ys', ys = ys' ++ [a] ∧ Interleave xs ys' zs := by
  induction zs generalizing xs ys with
  | nil =>
      cases h with
      | left h =>
          cases h
          exact Or.inl ⟨[], rfl, .nil⟩
      | right h =>
          cases h
          exact Or.inr ⟨[], rfl, .nil⟩
  | cons z zs ih =>
      cases h with
      | left h =>
          rcases ih h with ⟨xs', rfl, h'⟩ | ⟨ys', rfl, h'⟩
          · exact Or.inl ⟨z :: xs', rfl, .left h'⟩
          · exact Or.inr ⟨ys', rfl, .left h'⟩
      | right h =>
          rcases ih h with ⟨xs', rfl, h'⟩ | ⟨ys', rfl, h'⟩
          · exact Or.inl ⟨xs', rfl, .right h'⟩
          · exact Or.inr ⟨z :: ys', rfl, .right h'⟩

/-- The last element of the first row may go over to the second one, where it stands. -/
theorem exists_of_concat_left (h : Interleave (xs ++ [a]) ys zs) :
    ∃ before behind, ys = before ++ behind ∧ Interleave xs (before ++ a :: behind) zs := by
  induction zs generalizing xs ys with
  | nil =>
      generalize hrow : xs ++ [a] = row at h
      cases h
      exact absurd hrow (by simp)
  | cons z zs ih =>
      generalize hrow : xs ++ [a] = row at h
      cases h with
      | left h =>
          cases xs with
          | nil =>
              obtain ⟨rfl, rfl⟩ := List.cons.inj hrow
              exact ⟨[], ys, rfl, .right h⟩
          | cons x xs =>
              obtain ⟨rfl, rfl⟩ := List.cons.inj hrow
              obtain ⟨before, behind, rfl, h'⟩ := ih h
              exact ⟨before, behind, rfl, .left h'⟩
      | right h =>
          subst hrow
          obtain ⟨before, behind, rfl, h'⟩ := ih h
          exact ⟨z :: before, behind, rfl, .right h'⟩

theorem filterMap_right (h : Interleave xs ys zs) {g : α → Option β} (hg : ∀ x ∈ xs, g x = none) :
    ys.filterMap g = zs.filterMap g := by
  induction h with
  | nil => rfl
  | left _ ih =>
      obtain ⟨hx, hxs⟩ := List.forall_mem_cons.1 hg
      rw [List.filterMap_cons_none hx, ih hxs]
  | right _ ih => rw [List.filterMap_cons, List.filterMap_cons, ih hg]

end Interleave

namespace Filter

open Clause

variable {today : Date} {token : Text} {tokens : List Text} {f g : Filter} {c : Clause}

/-! ## One token -/

theorem unknown_prefix_add (h : f.add today token c = .ok g) : f.unknown <+: g.unknown := by
  rcases add_cases h with ⟨-, rfl⟩ | ⟨d, -, -, -, hsame, -⟩
  · exact List.prefix_append _ _
  · exact hsame ▸ List.prefix_refl _

theorem not_refused_of_unknown (h : f.add today token c = .ok g) (hsame : g.unknown <+: f.unknown) :
    ¬Refused today f c := by
  rcases add_cases h with ⟨-, rfl⟩ | ⟨d, htaken, -⟩
  · have hlength := hsame.length_le
    simp [addUnknown] at hlength
  · exact htaken

theorem refused_add (h : f.add today token c = .ok g) {c' : Clause} (hc' : Refused today f c') :
    Refused today g c' := by
  refine hc'.imp_left fun hoccupied => ?_
  cases c' with
  | bound side date =>
      obtain ⟨d, hd⟩ := Option.isSome_iff_exists.1 hoccupied
      have hstays : g.Demands (.bound side d) := (demands_add h).2 (Or.inl hd)
      exact Option.isSome_iff_exists.2 ⟨d, hstays⟩
  | _ => exact hoccupied

/-! ## Bounds -/

theorem setBound_comm {side other : Bound} (hne : other ≠ side) (x y : Option Date) :
    (f.setBound x side).setBound y other = (f.setBound y other).setBound x side := by
  cases side with
  | before =>
      cases other with
      | before => exact absurd rfl hne
      | after => rfl
  | after =>
      cases other with
      | before => rfl
      | after => exact absurd rfl hne

theorem addUnknown_setBound (x : Option Date) (side : Bound) :
    (f.setBound x side).addUnknown token = (f.addUnknown token).setBound x side := by
  cases side <;> rfl

theorem add_setBound {side : Bound} (x : Option Date) (hc : ∀ date, c ≠ .bound side date) :
    (f.setBound x side).add today token c =
      (f.add today token c).map fun g => g.setBound x side := by
  cases c with
  | bound other date =>
      have hne : other ≠ side := fun heq => hc date (heq ▸ rfl)
      rw [add, add, addBound, addBound, bound?_setBound, if_neg hne, addUnknown_setBound]
      split
      · rfl
      · cases Date.ofToken .back today date with
        | error fault => rfl
        | ok d =>
            cases d with
            | none => rfl
            | some d => exact congrArg Except.ok (setBound_comm hne x (some d))
  | kind k completed =>
      have hkinds : (f.setBound x side).kinds = f.kinds := by cases side <;> rfl
      simp only [add, Except.map, hkinds]
      split
      · rfl
      · cases side <;> rfl
  | _ => cases side <;> rfl

theorem bound?_of_add {side : Bound} (h : f.add today token c = .ok g)
    (hc : ∀ date, c ≠ .bound side date) : g.bound? side = f.bound? side := by
  refine Option.ext fun d => (demands_add (d := .bound side d) h).trans (or_iff_left ?_)
  rintro ⟨-, hd⟩
  obtain ⟨date, rfl⟩ := demand?_eq_bound hd
  exact hc date rfl

/-- A bound that is taken may be taken behind the next token instead. -/
theorem add_swapped {other : Text} {f₁ f₂ : Filter} (hbound : Refused today g (ofToken token))
    (h₁ : f.add today token (ofToken token) = .ok f₁) (htaken : ¬Refused today f (ofToken token))
    (h₂ : f₁.add today other (ofToken other) = .ok f₂)
    (htaken' : ¬Refused today f₁ (ofToken other)) :
    ∃ f₁', f.add today other (ofToken other) = .ok f₁' ∧
      f₁'.add today token (ofToken token) = .ok f₂ := by
  have hoccupied : g.Occupied (ofToken token) := hbound.resolve_right fun hd => htaken (Or.inr hd)
  cases hclause : ofToken token with
  | bound side date =>
      rw [hclause] at h₁ htaken
      rcases add_bound_cases h₁ with ⟨hrefused, -⟩ | ⟨d, rfl, hnone, hd⟩
      · exact absurd hrefused htaken
      · have hother : ∀ date', ofToken other ≠ .bound side date' := by
          intro date' heq
          refine htaken' (Or.inl ?_)
          rw [heq, Occupied, bound?_setBound, if_pos rfl]
          rfl
        rw [add_setBound (some d) hother] at h₂
        obtain ⟨f₁', hadd, rfl⟩ := map_eq_ok.1 h₂
        refine ⟨f₁', hadd, ?_⟩
        rw [add, addBound, bound?_of_add hadd hother, hnone, hd]
        rfl
  | _ =>
      rw [hclause] at hoccupied
      exact absurd hoccupied id

theorem asked?_of_refused (h : Refused today f c) : c.asked? = none := by
  cases c with
  | kind k completed => rcases h with h | h <;> cases h
  | _ => rfl

/-! ## All tokens -/

def read (today : Date) (f : Filter) (tokens : List Text) : Except Fault Filter :=
  tokens.foldlM (fun f token => f.add today token (ofToken token)) f

theorem read_cons_eq_ok :
    read today f (token :: tokens) = .ok g ↔
      ∃ f₁, f.add today token (ofToken token) = .ok f₁ ∧ read today f₁ tokens = .ok g := by
  rw [read, List.foldlM_cons, bind_eq_ok]
  rfl

theorem read_append_eq_ok {more : List Text} :
    read today f (tokens ++ more) = .ok g ↔
      ∃ f₁, read today f tokens = .ok f₁ ∧ read today f₁ more = .ok g := by
  rw [read, List.foldlM_append, bind_eq_ok]
  rfl

theorem unknown_prefix_read (h : read today f tokens = .ok g) : f.unknown <+: g.unknown := by
  induction tokens generalizing f with
  | nil =>
      cases h
      exact List.prefix_refl _
  | cons token tokens ih =>
      obtain ⟨f₁, h₁, h⟩ := read_cons_eq_ok.1 h
      exact (unknown_prefix_add h₁).trans (ih h)

theorem read_moved {f₀ : Filter} (hbound : Refused today f₀ (ofToken token))
    (h : read today f (token :: tokens) = .ok g) (hsame : g.unknown <+: f.unknown) :
    read today f (tokens ++ [token]) = .ok g := by
  induction tokens generalizing f with
  | nil => exact h
  | cons other tokens ih =>
      obtain ⟨f₁, h₁, h⟩ := read_cons_eq_ok.1 h
      obtain ⟨f₂, h₂, h⟩ := read_cons_eq_ok.1 h
      have hle₁ := unknown_prefix_add h₁
      have hle₂ := unknown_prefix_add h₂
      have hle := unknown_prefix_read h
      obtain ⟨f₁', h₁', h₂'⟩ := add_swapped hbound h₁
        (not_refused_of_unknown h₁ (hle₂.trans (hle.trans hsame))) h₂
        (not_refused_of_unknown h₂ (hle.trans (hsame.trans hle₁)))
      have hmoved := ih (f := f₁') (read_cons_eq_ok.2 ⟨f₂, h₂', h⟩)
        (hsame.trans (unknown_prefix_add h₁'))
      exact read_cons_eq_ok.2 ⟨f₁', h₁', hmoved⟩

theorem gather_moved {before behind : List Text} {f₀ : Filter}
    (hbound : Refused today f₀ (ofToken token))
    (h : gather today (before ++ token :: behind) = .ok g) (hnone : g.unknown = []) :
    gather today (before ++ behind ++ [token]) = .ok g := by
  obtain ⟨f₁, h₁, h⟩ := read_append_eq_ok.1 h
  rw [List.append_assoc]
  exact read_append_eq_ok.2 ⟨f₁, h₁, read_moved hbound h (by rw [hnone]; exact List.nil_prefix)⟩

theorem refused_of_mem_unknown (h : gather today tokens = .ok f) :
    ∀ t ∈ f.unknown, Refused today f (ofToken t) := by
  induction tokens using List.reverseRecOn generalizing f with
  | nil =>
      cases h
      simp
  | append_singleton tokens token ih =>
      obtain ⟨f₁, hf₁, h⟩ := gather_concat_eq_ok.1 h
      intro t ht
      rcases add_cases h with ⟨hrefused, rfl⟩ | ⟨d, -, -, -, hsame, -⟩
      · rcases List.mem_append.1 ht with ht | ht
        · exact refused_add h (ih hf₁ t ht)
        · rw [List.mem_singleton.1 ht]
          exact refused_add h hrefused
      · rw [hsame] at ht
        exact refused_add h (ih hf₁ t ht)

theorem unknown_sublist (h : gather today tokens = .ok f) : f.unknown.Sublist tokens := by
  induction tokens using List.reverseRecOn generalizing f with
  | nil =>
      cases h
      exact .slnil
  | append_singleton tokens token ih =>
      obtain ⟨f₁, hf₁, h⟩ := gather_concat_eq_ok.1 h
      rcases add_cases h with ⟨-, rfl⟩ | ⟨d, -, -, -, hsame, -⟩
      · exact (ih hf₁).append (List.Sublist.refl [token])
      · rw [hsame]
        exact (ih hf₁).trans (List.sublist_append_left tokens [token])

/-- However the refused tokens are taken out, the others give the same filter without them. -/
theorem gather_kept (h : gather today tokens = .ok f) {kept : List Text}
    (hkept : Interleave f.unknown kept tokens) : gather today kept = .ok (f.withUnknown []) := by
  -- By induction on the last token, which was refused or taken, and is taken out or left.
  induction tokens using List.reverseRecOn generalizing f kept with
  | nil =>
      cases h
      cases hkept
      rfl
  | append_singleton tokens token ih =>
      obtain ⟨f₁, hf₁, h⟩ := gather_concat_eq_ok.1 h
      rcases add_cases h with ⟨hrefused, rfl⟩ | ⟨d, hfree, -, -, hsame, htaken⟩
      · rcases hkept.concat_cases with ⟨out, hout, hkept'⟩ | ⟨kept', rfl, hkept'⟩
        · rw [← List.append_inj_left' hout rfl] at hkept'
          exact ih hf₁ hkept'
        -- An equal token further on the left is taken out instead, so it is a bound.
        · obtain ⟨before, behind, rfl, hmoved⟩ := hkept'.exists_of_concat_left
          exact gather_moved hrefused (ih hf₁ hmoved) rfl
      · rw [hsame] at hkept
        rcases hkept.concat_cases with ⟨out, hout, -⟩ | ⟨kept', rfl, hkept'⟩
        · have hmem : token ∈ f₁.unknown := by simp [hout]
          exact absurd (refused_of_mem_unknown hf₁ token hmem) hfree
        · exact gather_concat_eq_ok.2 ⟨_, ih hf₁ hkept', htaken []⟩

/-! ## What is left -/

/-- Each token demands something that stands in the filter, nothing else stands in it, and the
completion is the one that the tokens agree on. -/
structure MadeOf (today : Date) (tokens : List Text) (f : Filter) : Prop where
  demanded : ∀ t ∈ tokens, ∃ d, (ofToken t).demand? today = .ok (some d) ∧ f.Demands d
  only : ∀ d, f.Demands d → ∃ t ∈ tokens, (ofToken t).demand? today = .ok (some d)
  completed_iff : ∀ b, f.completed = some b ↔
    (∃ t ∈ tokens, (ofToken t).asked? = some b) ∧ ∀ t ∈ tokens, (ofToken t).asked? ≠ some !b

theorem gathered_of_none_unknown (h : gather today tokens = .ok f) (hnone : f.unknown = []) :
    Gathered today tokens f ∧ ∀ t ∈ tokens, ∃ d, (ofToken t).demand? today = .ok (some d) := by
  induction tokens using List.reverseRecOn generalizing f with
  | nil =>
      cases h
      exact ⟨gathered_nil today, by simp⟩
  | append_singleton tokens token ih =>
      obtain ⟨f₁, hf₁, h⟩ := gather_concat_eq_ok.1 h
      rcases add_cases h with ⟨-, rfl⟩ | ⟨d, hfree, hd, -, hsame, -⟩
      · simp [addUnknown] at hnone
      · obtain ⟨hgathered, hdemands⟩ := ih hf₁ (hsame ▸ hnone)
        refine ⟨hgathered.add (fun hoccupied => absurd (Or.inl hoccupied) hfree) h, fun t ht => ?_⟩
        rcases List.mem_append.1 ht with ht | ht
        · exact hdemands t ht
        · rw [List.mem_singleton.1 ht]
          exact ⟨d, hd⟩

theorem madeOf_of_gather (h : gather today tokens = .ok (f.withUnknown [])) :
    MadeOf today tokens { f with completed := askedCompletion tokens } := by
  obtain ⟨hgathered, hdemands⟩ := gathered_of_none_unknown h rfl
  have hstands : ∀ d, ({ f with completed := askedCompletion tokens } : Filter).Demands d ↔
      ∃ t ∈ tokens, (ofToken t).demand? today = .ok (some d) :=
    fun d => (demands_with.trans demands_with.symm).trans (hgathered.demands d)
  refine ⟨fun t ht => ?_, fun d => (hstands d).1, fun b => askedCompletion_eq_some_iff⟩
  obtain ⟨d, hd⟩ := hdemands t ht
  exact ⟨d, hd, (hstands d).2 ⟨t, ht, hd⟩⟩

/-- The tokens that a query's filter reports are some of its tokens, in their order.  However they
are taken out, the filter is made of the tokens that are left, and these, written with blanks
between them, are the query of the same filter with nothing to report. -/
theorem unknown_inert {saved favorites : List (Text × Text)} {query : Text}
    (h : ofQuery today saved favorites query = .ok f) :
    f.unknown.Sublist (Filter.tokens saved favorites query) ∧
      ∀ kept, Interleave f.unknown kept (Filter.tokens saved favorites query) →
        MadeOf today kept f ∧
          ofQuery today [] [] (joinWith [' '] kept) = .ok { f with unknown := [] } := by
  obtain ⟨f₁, hf₁, rfl⟩ := map_eq_ok.1 h
  have hgather : gather today (Filter.tokens saved favorites query) = .ok f₁ := hf₁
  have hsublist : f₁.unknown.Sublist (Filter.tokens saved favorites query) :=
    unknown_sublist hgather
  refine ⟨hsublist, fun kept hkept => ?_⟩
  have hleft : gather today kept = .ok (f₁.withUnknown []) := gather_kept hgather hkept
  have hwords : ∀ w ∈ kept, words w = [w] :=
    fun w hw => words_of_mem (hkept.right_sublist.subset hw)
  have htokens : Filter.tokens [] [] (joinWith [' '] kept) = kept := by
    rw [Shorthand.Plain.tokens ⟨fun _ _ => rfl, fun _ _ => rfl⟩, words_joinWith hwords]
  have hasked : askedCompletion kept = askedCompletion (Filter.tokens saved favorites query) := by
    rw [askedCompletion, askedCompletion, hkept.filterMap_right fun t ht =>
      asked?_of_refused (refused_of_mem_unknown hgather t ht)]
  rw [← hasked]
  refine ⟨madeOf_of_gather hleft, ?_⟩
  rw [ofQuery, htokens, ofTokens]
  exact map_eq_ok.2 ⟨_, hleft, rfl⟩

/-- The second of two equal bounds is reported, and here the first is taken out. -/
theorem unknown_inert_of_equal_bounds :
    let saved := [("w".toList, "@before:d1 #1 !c".toList)]
    let favorites := [("1".toList, "home".toList)]
    let query := "$w @before:d1 not:!n $u not:#x @overdue milk".toList
    let f : Filter :=
      { kinds := [.task], completed := some true, tags := ["home".toList],
        excludedTags := ["x".toList], terms := ["milk".toList], excludedKinds := [.note],
        before := some ⟨2026, 1, 4, by decide⟩, overdue := true,
        unknown := ["@before:d1".toList, "$u".toList] }
    let kept := ["#home".toList, "!c".toList, "@before:d1".toList, "not:!n".toList,
      "not:#x".toList, "@overdue".toList, "milk".toList]
    ofQuery ⟨2026, 1, 5, by decide⟩ saved favorites query = .ok f ∧
      Interleave f.unknown kept (Filter.tokens saved favorites query) ∧
      MadeOf ⟨2026, 1, 5, by decide⟩ kept f ∧
      ofQuery ⟨2026, 1, 5, by decide⟩ [] []
        "#home !c @before:d1 not:!n not:#x @overdue milk".toList =
          .ok { f with unknown := [] } := by
  intro saved favorites query f kept
  have hquery : ofQuery ⟨2026, 1, 5, by decide⟩ saved favorites query = .ok f :=
    eq_ok_of_toOption (by decide +kernel)
  have htokens : Filter.tokens saved favorites query = ["@before:d1".toList, "#home".toList,
      "!c".toList, "@before:d1".toList, "not:!n".toList, "$u".toList, "not:#x".toList,
      "@overdue".toList, "milk".toList] := by decide +kernel
  have hkept : Interleave f.unknown kept (Filter.tokens saved favorites query) := by
    rw [htokens]
    exact .left (.right (.right (.right (.right (.left (.right (.right (.right .nil))))))))
  exact ⟨hquery, hkept, (unknown_inert hquery).2 kept hkept⟩

end Filter

end DayJournal
