/-!
# Results that may be faults

How a computation that may fail came to its result: each step of it gave one.
-/

namespace DayJournal

variable {ε α β : Type}

theorem bind_eq_ok {x : Except ε α} {f : α → Except ε β} {b : β} :
    x >>= f = .ok b ↔ ∃ a, x = .ok a ∧ f a = .ok b := by
  constructor
  · intro h
    cases x with
    | error e => cases h
    | ok a => exact ⟨a, rfl, h⟩
  · rintro ⟨a, rfl, h⟩
    exact h

theorem map_eq_ok {x : Except ε α} {f : α → β} {b : β} :
    x.map f = .ok b ↔ ∃ a, x = .ok a ∧ f a = b := by
  constructor
  · intro h
    cases x with
    | error e => cases h
    | ok a => exact ⟨a, rfl, Except.ok.inj h⟩
  · rintro ⟨a, rfl, rfl⟩
    rfl

theorem bind_eq_error {x : Except ε α} {f : α → Except ε β} {e : ε} :
    x >>= f = .error e ↔ x = .error e ∨ ∃ a, x = .ok a ∧ f a = .error e := by
  constructor
  · intro h
    cases x with
    | error e' =>
        cases h
        exact Or.inl rfl
    | ok a => exact Or.inr ⟨a, rfl, h⟩
  · rintro (rfl | ⟨a, rfl, h⟩)
    · rfl
    · exact h

theorem map_eq_error {x : Except ε α} {f : α → β} {e : ε} :
    x.map f = .error e ↔ x = .error e := by
  cases x <;> simp [Except.map]

theorem eq_ok_of_toOption {x : Except ε α} {a : α} (h : x.toOption = some a) : x = .ok a := by
  cases x with
  | error e => cases h
  | ok b => rw [Option.some.inj h]

theorem exists_error_of_isOk {x : Except ε α} (h : x.isOk = false) : ∃ e, x = .error e := by
  cases x with
  | error e => exact ⟨e, rfl⟩
  | ok a => cases h

theorem exists_of_mem_mapM {f : α → Except ε β} {l : List α} {ys : List β}
    (h : l.mapM f = .ok ys) {y : β} (hy : y ∈ ys) : ∃ x ∈ l, f x = .ok y := by
  induction l generalizing ys with
  | nil =>
      rw [List.mapM_nil] at h
      cases h
      simp at hy
  | cons x l ih =>
      rw [List.mapM_cons] at h
      obtain ⟨z, hz, h⟩ := bind_eq_ok.1 h
      obtain ⟨zs, hzs, h⟩ := bind_eq_ok.1 h
      cases h
      rcases List.mem_cons.1 hy with rfl | hy
      · exact ⟨x, by simp, hz⟩
      · obtain ⟨x', hx', hfx'⟩ := ih hzs hy
        exact ⟨x', List.mem_cons_of_mem x hx', hfx'⟩

theorem exists_of_mapM_eq_error {f : α → Except ε β} {l : List α} {e : ε}
    (h : l.mapM f = .error e) : ∃ x ∈ l, f x = .error e := by
  induction l with
  | nil =>
      rw [List.mapM_nil] at h
      cases h
  | cons x l ih =>
      rw [List.mapM_cons] at h
      rcases bind_eq_error.1 h with h | ⟨y, -, h⟩
      · exact ⟨x, by simp, h⟩
      · rcases bind_eq_error.1 h with h | ⟨ys, -, h⟩
        · obtain ⟨x', hx', hfx'⟩ := ih h
          exact ⟨x', List.mem_cons_of_mem x hx', hfx'⟩
        · cases h

theorem exists_ok_of_mapM {f : α → Except ε β} {l : List α} {ys : List β}
    (h : l.mapM f = .ok ys) : ∀ x ∈ l, ∃ y, f x = .ok y := by
  induction l generalizing ys with
  | nil => simp
  | cons x l ih =>
      rw [List.mapM_cons] at h
      obtain ⟨z, hz, h⟩ := bind_eq_ok.1 h
      obtain ⟨zs, hzs, -⟩ := bind_eq_ok.1 h
      exact List.forall_mem_cons.2 ⟨⟨z, hz⟩, ih hzs⟩

theorem exists_error_of_mapM {f : α → Except ε β} {l : List α} {x : α} {e : ε} (hx : x ∈ l)
    (h : f x = .error e) : ∃ e', l.mapM f = .error e' := by
  cases hl : l.mapM f with
  | error e' => exact ⟨e', rfl⟩
  | ok ys =>
      obtain ⟨y, hy⟩ := exists_ok_of_mapM hl x hx
      rw [h] at hy
      cases hy

theorem isEmpty_of_mapM {f : α → Except ε β} {l : List α} {ys : List β}
    (h : l.mapM f = .ok ys) : ys.isEmpty = l.isEmpty := by
  cases l with
  | nil =>
      rw [List.mapM_nil] at h
      cases h
      rfl
  | cons x l =>
      rw [List.mapM_cons] at h
      obtain ⟨z, -, h⟩ := bind_eq_ok.1 h
      obtain ⟨zs, -, h⟩ := bind_eq_ok.1 h
      cases h
      rfl

theorem eq_map_of_mapM {f : α → Except ε β} {g : α → β} (hg : ∀ x y, f x = .ok y → g x = y)
    {l : List α} {ys : List β} (h : l.mapM f = .ok ys) : ys = l.map g := by
  induction l generalizing ys with
  | nil =>
      rw [List.mapM_nil] at h
      cases h
      rfl
  | cons x l ih =>
      rw [List.mapM_cons] at h
      obtain ⟨z, hz, h⟩ := bind_eq_ok.1 h
      obtain ⟨zs, hzs, h⟩ := bind_eq_ok.1 h
      cases h
      rw [List.map_cons, hg x z hz, ih hzs]

theorem mapM_eq_ok_iff {f : α → Except ε β} {g : α → β} (hg : ∀ x y, f x = .ok y → g x = y)
    {l : List α} {ys : List β} :
    l.mapM f = .ok ys ↔ (∀ x ∈ l, ∃ y, f x = .ok y) ∧ ys = l.map g := by
  constructor
  · exact fun h => ⟨exists_ok_of_mapM h, eq_map_of_mapM hg h⟩
  · rintro ⟨h, rfl⟩
    induction l with
    | nil => rfl
    | cons x l ih =>
        obtain ⟨⟨y, hy⟩, hl⟩ := List.forall_mem_cons.1 h
        rw [List.mapM_cons, hy, ih hl, List.map_cons, hg x y hy]
        rfl

end DayJournal
