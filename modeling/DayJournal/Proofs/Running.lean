import DayJournal.Proofs.Outcome
import DayJournal.Workspace
import DayJournal.Session

/-!
# Reasoning about runs

Changes of the workspace and commands of a session are computations with a state that may fail
halfway.  `Safe I c s Q` says that a run of `c` from `s` ends in a state with the invariant `I`,
also when it fails, and that a result it gives satisfies `Q` together with the last state.  There
is one rule for each way in which such computations are put together.  Where a run is followed step
by step, the `run_` lemmas give the result of each step and the state that it leaves.
-/

namespace DayJournal

variable {σ α β : Type} {I : σ → Prop} {s : σ}

/-- A run keeps an invariant, and a result that it gives satisfies a condition. -/
def Safe (I : σ → Prop) (c : ExceptT Fault (StateM σ) α) (s : σ) (Q : α → σ → Prop) : Prop :=
  I (c.run s).2 ∧ ∀ a, (c.run s).1 = .ok a → Q a (c.run s).2

theorem run_bind (c : ExceptT Fault (StateM σ) α) (f : α → ExceptT Fault (StateM σ) β) (s : σ) :
    (c >>= f).run s = match c.run s with
      | (.ok a, s') => (f a).run s'
      | (.error e, s') => (.error e, s') := by
  show ((ExceptT.bindCont f) (c.run s).1).run (c.run s).2 = _
  rcases c.run s with ⟨_ | _, _⟩ <;> rfl

theorem run_bind_ok {c : ExceptT Fault (StateM σ) α} {f : α → ExceptT Fault (StateM σ) β} {s s' : σ}
    {a : α} (h : c.run s = (.ok a, s')) : (c >>= f).run s = (f a).run s' := by
  rw [run_bind, h]

theorem run_bind_error {c : ExceptT Fault (StateM σ) α} {f : α → ExceptT Fault (StateM σ) β}
    {s s' : σ} {e : Fault} (h : c.run s = (.error e, s')) : (c >>= f).run s = (.error e, s') := by
  rw [run_bind, h]

theorem exists_run_error {c : ExceptT Fault (StateM σ) α} {s : σ} (h : (c.run s).1.isOk = false) :
    ∃ e, c.run s = (.error e, (c.run s).2) := by
  obtain ⟨e, he⟩ := exists_error_of_isOk h
  exact ⟨e, Prod.ext he rfl⟩

namespace Change

variable {f : Workspace → Except Fault (α × Workspace)} {w w' : Workspace} {a : α} {e : Fault}

theorem run_read (f : Workspace → α) (w : Workspace) : (read f).run w = (.ok (f w), w) := rfl

theorem run_single (h : f w = .ok (a, w')) : (single f).run w = (.ok a, w') := by
  simp [single, h]

theorem run_single_congr {g : Workspace → Except Fault (α × Workspace)} (h : f w = g w) :
    (single f).run w = (single g).run w := by
  cases hg : g w <;> simp [single, h, hg]

theorem run_single_error (h : f w = .error e) : (single f).run w = (.error e, w) := by
  simp [single, h]

end Change

namespace Safe

variable {c : ExceptT Fault (StateM σ) α} {Q : α → σ → Prop}

theorem pure {a : α} (hs : I s) (h : Q a s) : Safe I (pure a) s Q := by
  refine ⟨hs, fun b hb => ?_⟩
  cases hb
  exact h

theorem throw {fault : Fault} (hs : I s) : Safe I (throw fault) s Q :=
  ⟨hs, fun b hb => by cases hb⟩

theorem imp {R : α → σ → Prop} (hc : Safe I c s Q) (h : ∀ a s', I s' → Q a s' → R a s') :
    Safe I c s R :=
  ⟨hc.1, fun a ha => h a _ hc.1 (hc.2 a ha)⟩

theorem bind {f : α → ExceptT Fault (StateM σ) β} {R : β → σ → Prop} (hc : Safe I c s Q)
    (hf : ∀ a s', I s' → Q a s' → Safe I (f a) s' R) : Safe I (c >>= f) s R := by
  obtain ⟨hkept, hresult⟩ := hc
  rw [Safe, run_bind]
  cases h : c.run s with
  | mk result s' =>
      rw [h] at hkept hresult
      cases result with
      | error e => exact ⟨hkept, fun b hb => by cases hb⟩
      | ok a => exact hf a s' hkept (hresult a rfl)

theorem get (hs : I s) : Safe I get s fun a s' => s = a ∧ s = s' := by
  refine ⟨hs, fun a ha => ?_⟩
  cases ha
  exact ⟨rfl, rfl⟩

theorem modify {f : σ → σ} (h : I (f s)) : Safe I (modify f) s fun _ s' => s' = f s :=
  ⟨h, fun _ _ => rfl⟩

theorem forM {l : List α} {f : α → ExceptT Fault (StateM σ) PUnit} (hs : I s)
    (h : ∀ a ∈ l, ∀ s', I s' → Safe I (f a) s' fun _ _ => True) :
    Safe I (l.forM f) s fun _ _ => True := by
  induction l generalizing s with
  | nil => exact Safe.pure hs trivial
  | cons a l ih =>
      show Safe I (f a >>= fun _ => l.forM f) s _
      refine Safe.bind (h a (by simp) s hs) fun _ s' hs' _ => ?_
      exact ih hs' fun b hb => h b (List.mem_cons_of_mem a hb)

theorem mapM {l : List α} {f : α → ExceptT Fault (StateM σ) β} {Q : β → Prop} (hs : I s)
    (h : ∀ a ∈ l, ∀ s', I s' → Safe I (f a) s' fun b _ => Q b) :
    Safe I (l.mapM f) s fun bs _ => ∀ b ∈ bs, Q b := by
  induction l generalizing s with
  | nil =>
      rw [List.mapM_nil]
      exact Safe.pure hs (by simp)
  | cons a l ih =>
      rw [List.mapM_cons]
      refine Safe.bind (h a (by simp) s hs) fun b s' hs' hb => ?_
      refine Safe.bind (ih hs' fun x hx => h x (List.mem_cons_of_mem a hx))
        fun bs s'' hs'' hbs => ?_
      exact Safe.pure hs'' (by simpa using ⟨hb, hbs⟩)

end Safe

end DayJournal
