import DayJournal.Action.Basic
import DayJournal.Proofs.EntryMap

/-!
# Entries changed one after the other

A batch changes the entries at some places one after the other, and what it found can be put back
in the same order.  A place may be named more than once.  Then the entry there is changed as often,
and what is put back last is what was found last.  So a batch is taken back when each entry was as
in the beginning when its last turn came.
-/

namespace DayJournal

open Text

namespace Document

/-- The document with the entries at some places changed one after the other. -/
def batch (f : Entry → Entry) (places : List Address) (t : Text) : Text :=
  places.foldl (fun t place => mapEntry t place f) t

def capture (f : Entry → Entry) : List Address → Text → List FoundEntry
  | [], _ => []
  | place :: more, t =>
    match entryIn t place with
    | none => capture f more t
    | some e => ⟨place, e⟩ :: capture f more (mapEntry t place f)

/-- The document with what was found put back in order; `g` tells what becomes of an entry when
another one is put back. -/
def putBack (g : Entry → Entry → Entry) (found : List FoundEntry) (t : Text) : Text :=
  found.foldl (fun t x => mapEntry t x.place (g x.entry)) t

/-- Each entry is as in the beginning when its last turn comes, as far as it is put back. -/
def Rewinds (f : Entry → Entry) (g : Entry → Entry → Entry) (places : List Address) (t : Text) :
    Prop :=
  ∀ place ∈ places, ∀ e, entryIn t place = some e →
    g (f^[places.count place - 1] e) (f^[places.count place] e) = e

variable {f : Entry → Entry} {g : Entry → Entry → Entry} {places more : List Address} {t u : Text}
  {place : Address} {e : Entry}

theorem batch_cons (f : Entry → Entry) (place : Address) (more : List Address) (t : Text) :
    batch f (place :: more) t = batch f more (mapEntry t place f) := rfl

theorem putBack_cons (g : Entry → Entry → Entry) (x : FoundEntry) (more : List FoundEntry)
    (t : Text) : putBack g (x :: more) t = putBack g more (mapEntry t x.place (g x.entry)) := rfl

theorem capture_cons_of_none (h : entryIn t place = none) :
    capture f (place :: more) t = capture f more t := by
  rw [capture, h]

theorem capture_cons_of_some (h : entryIn t place = some e) :
    capture f (place :: more) t = ⟨place, e⟩ :: capture f more (mapEntry t place f) := by
  rw [capture, h]

theorem batch_capture (f : Entry → Entry) (places : List Address) (t : Text) :
    batch f ((capture f places t).map FoundEntry.place) t = batch f places t ∧
      capture f ((capture f places t).map FoundEntry.place) t = capture f places t := by
  induction places generalizing t with
  | nil => exact ⟨rfl, rfl⟩
  | cons place more ih =>
      cases hold : entryIn t place with
      | none =>
          rw [capture_cons_of_none hold, batch_cons, mapEntry_of_none hold]
          exact ih t
      | some e =>
          obtain ⟨hbatch, hcapture⟩ := ih (mapEntry t place f)
          rw [capture_cons_of_some hold, List.map_cons, batch_cons, batch_cons,
            capture_cons_of_some hold, hbatch, hcapture]
          exact ⟨rfl, rfl⟩

theorem rewinds_of_nodup (hg : ∀ e, g e (f e) = e) (h : places.Nodup) : Rewinds f g places t := by
  intro place hplace e he
  rw [List.count_eq_one_of_mem h hplace]
  exact hg e

end Document

open Document

namespace PlainDocument

variable {f : Entry → Entry} {g : Entry → Entry → Entry} {places : List Address} {t u : Text}

section Batch

variable (hf : ∀ e, e.Plain → (f e).Plain)
include hf

theorem batch (h : PlainDocument t) (places : List Address) :
    PlainDocument (batch f places t) := by
  induction places generalizing t with
  | nil => exact h
  | cons place more ih => exact ih (h.mapEntry hf place)

theorem sameShape_batch (h : PlainDocument t) (places : List Address) :
    SameShape (Document.batch f places t) t := by
  induction places generalizing t with
  | nil => exact fun _ => rfl
  | cons place more ih =>
      exact (ih (h.mapEntry hf place)).trans (h.sameShape_mapEntry hf place)

theorem entryIn_batch (h : PlainDocument t) (places : List Address) (q : Address) :
    entryIn (Document.batch f places t) q = (entryIn t q).map f^[places.count q] := by
  induction places generalizing t with
  | nil => simp [Document.batch]
  | cons place more ih =>
      -- The first turn comes before the others, hence `iterate_succ` and not `iterate_succ'`.
      rw [batch_cons, ih (h.mapEntry hf place), h.entryIn_mapEntry hf]
      by_cases hq : q = place
      · subst hq
        rw [if_pos rfl, List.count_cons_self, Option.map_map, Function.iterate_succ]
      · rw [if_neg hq, List.count_cons_of_ne (Ne.symm hq)]

end Batch

section PutBack

variable (hg : ∀ a b, a.Plain → b.Plain → (g a b).Plain)
include hg

theorem putBack {found : List FoundEntry} (h : PlainDocument t)
    (hfound : ∀ x ∈ found, x.entry.Plain) :
    PlainDocument (putBack g found t) ∧ SameShape (Document.putBack g found t) t := by
  induction found generalizing t with
  | nil => exact ⟨h, fun _ => rfl⟩
  | cons x more ih =>
      have hx : ∀ e, e.Plain → (g x.entry e).Plain := fun e he => hg _ e (hfound x (by simp)) he
      obtain ⟨hplain, hshape⟩ := ih (h.mapEntry hx x.place)
        fun y hy => hfound y (List.mem_cons_of_mem x hy)
      exact ⟨hplain, hshape.trans (h.sameShape_mapEntry hx x.place)⟩

end PutBack

section Capture

variable (hf : ∀ e, e.Plain → (f e).Plain) (hg : ∀ a b, a.Plain → b.Plain → (g a b).Plain)

include hf in
theorem plain_of_mem_capture (h : PlainDocument t) :
    ∀ x ∈ capture f places t, x.entry.Plain := by
  induction places generalizing t with
  | nil => simp [capture]
  | cons place more ih =>
      cases hold : entryIn t place with
      | none =>
          rw [capture_cons_of_none hold]
          exact ih h
      | some e =>
          rw [capture_cons_of_some hold, List.forall_mem_cons]
          exact ⟨h.plain_of_entryIn hold, ih (h.mapEntry hf place)⟩

include hf hg in
theorem entryIn_putBack_of_none {q : Address} (ht : PlainDocument t) (hu : PlainDocument u)
    (hq : entryIn t q = none) :
    entryIn (Document.putBack g (capture f places t) u) q = entryIn u q := by
  induction places generalizing t u with
  | nil => rfl
  | cons place more ih =>
      cases hold : entryIn t place with
      | none =>
          rw [capture_cons_of_none hold]
          exact ih ht hu hq
      | some e =>
          have hne : q ≠ place := by
            rintro rfl
            rw [hq] at hold
            cases hold
          have he : ∀ b, b.Plain → (g e b).Plain := fun b hb => hg e b (ht.plain_of_entryIn hold) hb
          have hq' : entryIn (Document.mapEntry t place f) q = none := by
            rw [ht.entryIn_mapEntry hf, if_neg hne, hq]
          rw [capture_cons_of_some hold, putBack_cons,
            ih (ht.mapEntry hf place) (hu.mapEntry he place) hq', hu.entryIn_mapEntry he,
            if_neg hne]

include hf hg in
theorem entryIn_putBack (hlast : ∀ a b c, g a (g b c) = g a c) {q : Address} {e e' : Entry}
    (ht : PlainDocument t) (hu : PlainDocument u) (hq : entryIn t q = some e)
    (hq' : entryIn u q = some e') :
    entryIn (Document.putBack g (capture f places t) u) q =
      some (if q ∈ places then g (f^[places.count q - 1] e) e' else e') := by
  induction places generalizing t u e e' with
  | nil => simpa [capture, Document.putBack] using hq'
  | cons place more ih =>
      cases hold : entryIn t place with
      | none =>
          have hne : q ≠ place := by
            rintro rfl
            rw [hq] at hold
            cases hold
          rw [capture_cons_of_none hold, ih ht hu hq hq', List.count_cons_of_ne (Ne.symm hne)]
          simp only [List.mem_cons, hne, false_or]
      | some a =>
          have ha : ∀ b, b.Plain → (g a b).Plain := fun b hb => hg a b (ht.plain_of_entryIn hold) hb
          have ht' := ht.mapEntry hf place
          have hu' := hu.mapEntry ha place
          rw [capture_cons_of_some hold, putBack_cons]
          by_cases hqp : q = place
          · subst hqp
            rw [hq] at hold
            cases hold
            have hfound : entryIn (Document.mapEntry t q f) q = some (f e) := by
              rw [ht.entryIn_mapEntry hf, if_pos rfl, hq, Option.map_some]
            have hput : entryIn (Document.mapEntry u q (g e)) q = some (g e e') := by
              rw [hu.entryIn_mapEntry ha, if_pos rfl, hq', Option.map_some]
            have hmem : q ∈ q :: more := List.mem_cons_self
            rw [ih ht' hu' hfound hput, if_pos hmem, List.count_cons_self]
            -- What is put back now is put back over when the place comes again.
            by_cases hmore : q ∈ more
            · have hpos : 0 < more.count q := List.count_pos_iff.2 hmore
              obtain ⟨n, hn⟩ : ∃ n, more.count q = n + 1 := ⟨more.count q - 1, by omega⟩
              rw [if_pos hmore, hlast, hn, Nat.add_sub_cancel, Nat.add_sub_cancel,
                Function.iterate_succ_apply]
            · rw [if_neg hmore, List.count_eq_zero.2 hmore]
              rfl
          · have hfound : entryIn (Document.mapEntry t place f) q = some e := by
              rw [ht.entryIn_mapEntry hf, if_neg hqp, hq]
            have hput : entryIn (Document.mapEntry u place (g a)) q = some e' := by
              rw [hu.entryIn_mapEntry ha, if_neg hqp, hq']
            rw [ih ht' hu' hfound hput, List.count_cons_of_ne (Ne.symm hqp)]
            simp only [List.mem_cons, hqp, false_or]

include hf hg in
/-- A batch is taken back just when each entry is as in the beginning when its last turn comes. -/
theorem putBack_capture_eq_iff (hlast : ∀ a b c, g a (g b c) = g a c) (h : PlainDocument t) :
    Document.putBack g (capture f places t) (Document.batch f places t) = t ↔
      Rewinds f g places t := by
  have hbatch := h.batch hf places
  have hentry : ∀ {q e}, entryIn t q = some e →
      entryIn (Document.putBack g (capture f places t) (Document.batch f places t)) q =
        some (if q ∈ places then g (f^[places.count q - 1] e) (f^[places.count q] e)
          else f^[places.count q] e) := by
    intro q e hq
    exact entryIn_putBack hf hg hlast h hbatch hq (by rw [h.entryIn_batch hf, hq, Option.map_some])
  constructor
  · intro heq place hplace e he
    have hplace' := hentry he
    rw [heq, he, if_pos hplace] at hplace'
    exact (Option.some.inj hplace').symm
  -- A plain document is determined by the shape of its lines and by its entries.
  · intro hrewinds
    obtain ⟨hplain, hshape⟩ := hbatch.putBack hg (h.plain_of_mem_capture hf)
    apply hplain.ext_entries h (hshape.trans (h.sameShape_batch hf places))
    intro q
    cases hq : entryIn t q with
    | none =>
        rw [entryIn_putBack_of_none hf hg h hbatch hq, h.entryIn_batch hf, hq, Option.map_none]
    | some e =>
        rw [hentry hq]
        by_cases hmem : q ∈ places
        · rw [if_pos hmem, hrewinds q hmem e hq]
        · rw [if_neg hmem, List.count_eq_zero.2 hmem]
          rfl

end Capture

end PlainDocument

end DayJournal
