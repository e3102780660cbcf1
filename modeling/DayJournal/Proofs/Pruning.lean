import DayJournal.Proofs.Deletion
import Mathlib.Logic.Function.Basic

/-!
# Lines that are cut several times

A deletion at a place takes the entry away that stands there when its turn comes, and the lines
below move up.  Places are visited from the last one up, so a place that is named several times
loses first its own entry and then those that have moved up to it.  `prune` says what is left of the
lines of a day, and `Shielded` when nothing is gone that was not named.
-/

namespace DayJournal

open Text Document

namespace Line

/-! ## Entries cut at the same place -/

def cut (ls : List Line) (i : Nat) : List Line :=
  match ls[i]? with
  | some (.entry _) => ls.eraseIdx i
  | _ => ls

/-- The lines without entries that they begin with, at most so many. -/
def cutHead : Nat → List Line → List Line
  | n + 1, .entry _ :: ls => cutHead n ls
  | _, ls => ls

/-- What is left of lines when each is cut as often as its place is named, the last line first. -/
def prune (times : Nat → Nat) : List Line → List Line
  | [] => []
  | l :: ls => cutHead (times 0) (l :: prune (times ∘ Nat.succ) ls)

/-- The lines that are no entries at places that are named. -/
def spare (times : Nat → Nat) : List Line → List Line
  | [] => []
  | .entry e :: ls =>
    if times 0 = 0 then .entry e :: spare (times ∘ Nat.succ) ls else spare (times ∘ Nat.succ) ls
  | .plain s :: ls => .plain s :: spare (times ∘ Nat.succ) ls

/-- Between an entry that is named more than once and the next one below it that is not named there
is a line that is no entry. -/
def Shielded (times : Nat → Nat) (ls : List Line) : Prop :=
  ∀ (i j : Nat) e e', 2 ≤ times i → ls[i]? = some (.entry e) → i < j → times j = 0 →
    ls[j]? = some (.entry e') → ∃ k s, i < k ∧ k < j ∧ ls[k]? = some (.plain s)

variable {times : Nat → Nat} {ls ls' : List Line} {n i : Nat}

@[simp] theorem cutHead_zero (ls : List Line) : cutHead 0 ls = ls := by
  cases ls <;> rfl

@[simp] theorem cutHead_nil (n : Nat) : cutHead n [] = [] := by
  cases n <;> rfl

@[simp] theorem cutHead_plain (n : Nat) (s : Text) (ls : List Line) :
    cutHead n (.plain s :: ls) = .plain s :: ls := by
  cases n <;> rfl

@[simp] theorem cutHead_entry (n : Nat) (e : Entry) (ls : List Line) :
    cutHead (n + 1) (.entry e :: ls) = cutHead n ls := rfl

theorem cutHead_suffix (n : Nat) (ls : List Line) : cutHead n ls <:+ ls := by
  induction n generalizing ls with
  | zero => simp
  | succ n ih =>
      cases ls with
      | nil => simp
      | cons l ls =>
          cases l with
          | entry e => exact (ih ls).trans (List.suffix_cons _ ls)
          | plain s => simp

theorem cutHead_succ (n : Nat) (ls : List Line) : cutHead (n + 1) ls = cut (cutHead n ls) 0 := by
  induction n generalizing ls with
  | zero =>
      cases ls with
      | nil => rfl
      | cons l ls => cases l <;> simp [cut]
  | succ n ih =>
      cases ls with
      | nil => rfl
      | cons l ls =>
          cases l with
          | entry e => exact ih ls
          | plain s => rfl

theorem cut_eq (ls : List Line) (i : Nat) :
    cut ls i = if (ls[i]?.bind entry?).isSome then ls.eraseIdx i else ls := by
  unfold cut
  cases ls[i]? with
  | none => rfl
  | some l => cases l <;> rfl

theorem cut_eq_remove {index : Int} {e : Entry} (h : entryAt? ls index = some e) :
    cut ls index.toNat = remove ls index := by
  obtain ⟨hindex, hline⟩ := getElem_of_entryAt h
  rw [cut, hline, remove, if_pos hindex]

theorem cut_of_none {index : Int} (hindex : 0 ≤ index) (h : entryAt? ls index = none) :
    cut ls index.toNat = ls := by
  rw [entryAt?, if_pos hindex] at h
  rw [cut_eq, h]
  rfl

theorem cut_cons_succ (l : Line) (ls : List Line) (i : Nat) :
    cut (l :: ls) (i + 1) = l :: cut ls i := by
  simp only [cut, List.getElem?_cons_succ, List.eraseIdx_cons_succ]
  split <;> rfl

theorem prune_update (h : ∀ j < i, times j = 0) (ls : List Line) :
    prune (Function.update times i (times i + 1)) ls = cut (prune times ls) i := by
  induction ls generalizing times i with
  | nil => rfl
  | cons l ls ih =>
      cases i with
      | zero =>
          have hrest : Function.update times 0 (times 0 + 1) ∘ Nat.succ = times ∘ Nat.succ := by
            funext j
            simp
          rw [prune, hrest, Function.update_self, cutHead_succ]
          rfl
      | succ i =>
          have hzero : times 0 = 0 := h 0 (by omega)
          have hrest : Function.update times (i + 1) (times (i + 1) + 1) ∘ Nat.succ =
              Function.update (times ∘ Nat.succ) i ((times ∘ Nat.succ) i + 1) := by
            funext j
            simp [Function.update_apply]
          have htail : prune (Function.update (times ∘ Nat.succ) i ((times ∘ Nat.succ) i + 1)) ls =
              cut (prune (times ∘ Nat.succ) ls) i := ih fun j hj => h (j + 1) (by omega)
          rw [prune, hrest, htail, Function.update_of_ne (by omega), hzero, cutHead_zero, prune,
            hzero, cutHead_zero, cut_cons_succ]

theorem getElem?_prune (h : ∀ j ≤ i, times j = 0) (ls : List Line) :
    (prune times ls)[i]? = ls[i]? := by
  induction ls generalizing times i with
  | nil => rfl
  | cons l ls ih =>
      rw [prune, h 0 (Nat.zero_le i), cutHead_zero]
      cases i with
      | zero => rfl
      | succ i => exact ih fun j hj => h (j + 1) (by omega)

theorem prune_zero (ls : List Line) : prune (fun _ => 0) ls = ls := by
  induction ls with
  | nil => rfl
  | cons l ls ih =>
      rw [prune, cutHead_zero]
      exact congrArg _ ih

/-! ## What is left -/

theorem prune_sublist_spare (times : Nat → Nat) (ls : List Line) :
    (prune times ls).Sublist (spare times ls) := by
  induction ls generalizing times with
  | nil => exact .slnil
  | cons l ls ih =>
      have hrest := ih (times ∘ Nat.succ)
      cases l with
      | plain s =>
          rw [prune, cutHead_plain, spare]
          exact hrest.cons_cons _
      | entry e =>
          rw [prune, spare]
          cases hzero : times 0 with
          | zero => simpa using hrest
          | succ n => exact (cutHead_suffix n _).sublist.trans hrest

theorem spare_sublist (times : Nat → Nat) (ls : List Line) : (spare times ls).Sublist ls := by
  induction ls generalizing times with
  | nil => exact .slnil
  | cons l ls ih =>
      cases l with
      | plain s => exact (ih _).cons_cons _
      | entry e =>
          rw [spare]
          split
          · exact (ih _).cons_cons _
          · exact (ih _).cons _

theorem prune_sublist (times : Nat → Nat) (ls : List Line) : (prune times ls).Sublist ls :=
  (prune_sublist_spare times ls).trans (spare_sublist times ls)

theorem head_spare_iff (times : Nat → Nat) (ls : List Line) :
    (∀ e, (spare times ls).head? ≠ some (.entry e)) ↔
      ∀ j e, times j = 0 → ls[j]? = some (.entry e) → ∃ k s, k < j ∧ ls[k]? = some (.plain s) := by
  induction ls generalizing times with
  | nil => simp [spare]
  | cons l ls ih =>
      cases l with
      | plain s =>
          refine ⟨fun _ j e _ hj => ?_, fun _ e h => by cases h⟩
          cases j with
          | zero => cases hj
          | succ j => exact ⟨0, s, by omega, rfl⟩
      | entry e =>
          by_cases hzero : times 0 = 0
          · refine ⟨fun h => absurd ?_ (h e), fun h => ?_⟩
            · simp [spare, hzero]
            · obtain ⟨k, s, hk, -⟩ := h 0 e hzero rfl
              omega
          · rw [spare, if_neg hzero, ih]
            constructor
            · intro h j e' hj hentry
              cases j with
              | zero => exact absurd hj hzero
              | succ j =>
                  obtain ⟨k, s, hk, hplain⟩ := h j e' hj hentry
                  exact ⟨k + 1, s, by omega, hplain⟩
            · intro h j e' hj hentry
              obtain ⟨k, s, hk, hplain⟩ := h (j + 1) e' hj hentry
              cases k with
              | zero => cases hplain
              | succ k => exact ⟨k, s, by omega, hplain⟩

theorem shielded_cons_iff (times : Nat → Nat) (l : Line) (ls : List Line) :
    Shielded times (l :: ls) ↔
      ((∃ e, l = .entry e) → 2 ≤ times 0 →
        ∀ e, (spare (times ∘ Nat.succ) ls).head? ≠ some (.entry e)) ∧
      Shielded (times ∘ Nat.succ) ls := by
  rw [head_spare_iff]
  constructor
  · refine fun h => ⟨fun ⟨e, hl⟩ htwice j e' hj hentry => ?_,
      fun i j e e' hi hentry hij hj hentry' => ?_⟩
    · obtain ⟨k, s, hk, hkj, hplain⟩ :=
        h 0 (j + 1) e e' htwice (by rw [hl]; rfl) (by omega) hj hentry
      obtain ⟨k, rfl⟩ : ∃ k', k = k' + 1 := ⟨k - 1, by omega⟩
      exact ⟨k, s, by omega, hplain⟩
    · obtain ⟨k, s, hk, hkj, hplain⟩ :=
        h (i + 1) (j + 1) e e' hi hentry (by omega) hj hentry'
      obtain ⟨k, rfl⟩ : ∃ k', k = k' + 1 := ⟨k - 1, by omega⟩
      exact ⟨k, s, by omega, by omega, hplain⟩
  · rintro ⟨hhead, htail⟩ i j e e' hi hentry hij hj hentry'
    obtain ⟨j, rfl⟩ : ∃ j', j = j' + 1 := ⟨j - 1, by omega⟩
    cases i with
    | zero =>
        obtain ⟨k, s, hk, hplain⟩ := hhead ⟨e, by simpa using hentry⟩ hi j e' hj hentry'
        exact ⟨k + 1, s, by omega, by omega, hplain⟩
    | succ i =>
        obtain ⟨k, s, hik, hkj, hplain⟩ := htail i j e e' hi hentry (by omega) hj hentry'
        exact ⟨k + 1, s, by omega, by omega, hplain⟩

theorem cutHead_of_head (n : Nat) (h : ∀ e, ls.head? ≠ some (.entry e)) : cutHead n ls = ls := by
  cases ls with
  | nil => simp
  | cons l ls =>
      cases l with
      | plain s => simp
      | entry e => exact absurd rfl (h e)

theorem prune_eq_spare (h : Shielded times ls) : prune times ls = spare times ls := by
  induction ls generalizing times with
  | nil => rfl
  | cons l ls ih =>
      obtain ⟨hhead, htail⟩ := (shielded_cons_iff times l ls).1 h
      rw [prune, ih htail]
      cases l with
      | plain s => rw [cutHead_plain, spare]
      | entry e =>
          rw [spare]
          cases hzero : times 0 with
          | zero => simp
          | succ n =>
              rw [cutHead_entry, if_neg (by omega)]
              cases n with
              | zero => exact cutHead_zero _
              | succ n => exact cutHead_of_head _ (hhead ⟨e, rfl⟩ (by omega))

/-- The entries that are left are those that were not named just when those are shielded from the
turns that are too many. -/
theorem entries_prune_eq_iff (times : Nat → Nat) (ls : List Line) :
    (prune times ls).filterMap entry? = (spare times ls).filterMap entry? ↔ Shielded times ls := by
  refine ⟨fun h => ?_, fun h => by rw [prune_eq_spare h]⟩
  induction ls generalizing times with
  | nil => exact fun i j e e' _ hentry => by simp at hentry
  | cons l ls ih =>
      rw [shielded_cons_iff]
      cases l with
      | plain s =>
          rw [prune, cutHead_plain, spare] at h
          exact ⟨fun ⟨e, he⟩ => (by cases he), ih _ h⟩
      | entry e =>
          rw [prune, spare] at h
          cases hzero : times 0 with
          | zero =>
              rw [hzero, cutHead_zero, if_pos rfl] at h
              exact ⟨fun _ htwice => by omega, ih _ (List.cons.inj h).2⟩
          | succ n =>
              rw [hzero, cutHead_entry, if_neg (by omega)] at h
              have hrest := (prune_sublist_spare (times ∘ Nat.succ) ls).filterMap entry?
              have hcut :=
                ((cutHead_suffix n (prune (times ∘ Nat.succ) ls)).sublist).filterMap entry?
              rw [h] at hcut
              have hshielded := ih _ (hrest.antisymm hcut)
              refine ⟨fun _ htwice e' hhead => ?_, hshielded⟩
              -- The entry that has moved up is gone, so there are fewer than there should be.
              obtain ⟨m, rfl⟩ : ∃ m, n = m + 1 := ⟨n - 1, by omega⟩
              obtain ⟨more, hmore⟩ : ∃ more, spare (times ∘ Nat.succ) ls = .entry e' :: more :=
                ⟨_, List.eq_cons_of_mem_head? hhead⟩
              rw [prune_eq_spare hshielded, hmore, cutHead_entry] at h
              have hlength := ((cutHead_suffix m more).sublist.filterMap entry?).length_le
              rw [h] at hlength
              simp [ entry?] at hlength

end Line

/-! ## Deletions -/

namespace Document

def timesNamed (places : List Address) (day : Date) (i : Nat) : Nat := places.count ⟨day, i⟩

def entriesOn (t : Text) (day : Date) : List Entry := (dayLines t day).filterMap Line.entry?

def entriesSpared (places : List Address) (t : Text) (day : Date) : List Entry :=
  (Line.spare (timesNamed places day) (dayLines t day)).filterMap Line.entry?

/-- On every day the entries that are not named are shielded from those that are named more than
once. -/
def Shielded (places : List Address) (t : Text) : Prop :=
  ∀ day, Line.Shielded (timesNamed places day) (dayLines t day)

theorem shielded_of_nodup {places : List Address} (h : places.Nodup) (t : Text) :
    Shielded places t := by
  intro day i j e e' htwice
  have honce := List.nodup_iff_count_le_one.1 h ⟨day, i⟩
  rw [timesNamed] at htwice
  omega

@[simp] theorem timesNamed_lastFirst (places : List Address) (day : Date) :
    timesNamed (Address.lastFirst places) day = timesNamed places day :=
  funext fun _ => (sortBy_perm _ places).count_eq _

theorem timesNamed_concat (places : List Address) (place : Address) (day : Date) :
    timesNamed (places ++ [place]) day =
      if place.day = day ∧ 0 ≤ place.line then
        Function.update (timesNamed places day) place.line.toNat
          (timesNamed places day place.line.toNat + 1)
      else timesNamed places day := by
  obtain ⟨pday, pline⟩ := place
  funext i
  have hsum : timesNamed (places ++ [⟨pday, pline⟩]) day i =
      timesNamed places day i + if pday = day ∧ pline = i then 1 else 0 := by
    rw [timesNamed, List.count_append, timesNamed]
    congr 1
    simp [List.count_singleton]
  rw [hsum]
  by_cases hnamed : pday = day ∧ 0 ≤ pline
  · rw [if_pos hnamed]
    by_cases hi : i = pline.toNat
    · rw [hi, Function.update_self, if_pos ⟨hnamed.1, by omega⟩]
    · rw [Function.update_of_ne hi, if_neg fun hplace => hi (by omega), Nat.add_zero]
  · rw [if_neg hnamed, if_neg fun hplace => hnamed ⟨hplace.1, by omega⟩, Nat.add_zero]

end Document

end DayJournal
