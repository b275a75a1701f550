import Mathlib
/-!
# Undo journals with numbered snapshots

Both state databases of the chain keep a journal of undo entries and a stack of revisions. A
snapshot records the current journal length under a fresh id; reverting to an id looks the id up
with a binary search over the stack, undoes every later entry newest first, and truncates the
journal and the stack. This module is that machinery over an arbitrary entry type, with the
revision stack's invariant carried by the structure: ids strictly increase, stay below the next
id, and record journal lengths that increase and do not exceed the journal.

Entries are kept newest first, so the entries to undo after a revision are a prefix of the list.
-/

/-- A revision: a snapshot id and the journal length when it was taken. -/
structure Revision where
  id : Nat
  journalIndex : Nat
  deriving DecidableEq, Repr

/-- An undo journal, newest entry first, with its revision stack. -/
structure Journal (ε : Type) where
  entries : List ε
  validRevisions : List Revision
  nextRevisionId : Nat
  ids_increasing : validRevisions.Pairwise (fun r r' => r.id < r'.id)
  ids_lt_next : ∀ r ∈ validRevisions, r.id < nextRevisionId
  indices_monotone : validRevisions.Pairwise (fun r r' => r.journalIndex ≤ r'.journalIndex)
  indices_le_length : ∀ r ∈ validRevisions, r.journalIndex ≤ entries.length

namespace Journal

variable {ε : Type}

/-- The empty journal of a fresh database. -/
def empty : Journal ε where
  entries := []
  validRevisions := []
  nextRevisionId := 0
  ids_increasing := List.Pairwise.nil
  ids_lt_next := by simp
  indices_monotone := List.Pairwise.nil
  indices_le_length := by simp

/-- `journal = append(journal, e)`. -/
def append (j : Journal ε) (e : ε) : Journal ε where
  entries := e :: j.entries
  validRevisions := j.validRevisions
  nextRevisionId := j.nextRevisionId
  ids_increasing := j.ids_increasing
  ids_lt_next := j.ids_lt_next
  indices_monotone := j.indices_monotone
  indices_le_length := fun r hr => Nat.le_succ_of_le (j.indices_le_length r hr)

@[simp] theorem append_entries (j : Journal ε) (e : ε) : (j.append e).entries = e :: j.entries := rfl

@[simp] theorem append_validRevisions (j : Journal ε) (e : ε) :
    (j.append e).validRevisions = j.validRevisions := rfl

/-- `Snapshot`: a fresh id recording the current journal length. -/
def snapshot (j : Journal ε) : Nat × Journal ε :=
  (j.nextRevisionId,
    { entries := j.entries
      validRevisions := j.validRevisions ++ [⟨j.nextRevisionId, j.entries.length⟩]
      nextRevisionId := j.nextRevisionId + 1
      ids_increasing := by
        refine List.pairwise_append.mpr ⟨j.ids_increasing, by simp, ?_⟩
        intro r hr r' hr'
        simp only [List.mem_singleton] at hr'
        subst hr'
        exact j.ids_lt_next r hr
      ids_lt_next := by
        intro r hr
        rcases List.mem_append.mp hr with hr | hr
        · exact Nat.lt_succ_of_lt (j.ids_lt_next r hr)
        · simp only [List.mem_singleton] at hr
          subst hr
          exact Nat.lt_succ_self _
      indices_monotone := by
        refine List.pairwise_append.mpr ⟨j.indices_monotone, by simp, ?_⟩
        intro r hr r' hr'
        simp only [List.mem_singleton] at hr'
        subst hr'
        exact j.indices_le_length r hr
      indices_le_length := by
        intro r hr
        rcases List.mem_append.mp hr with hr | hr
        · exact j.indices_le_length r hr
        · simp only [List.mem_singleton] at hr
          subst hr
          exact Nat.le_refl _ })

/-- `clearJournal`: no entries and no revisions; ids keep counting. -/
def clear (j : Journal ε) : Journal ε where
  entries := []
  validRevisions := []
  nextRevisionId := j.nextRevisionId
  ids_increasing := List.Pairwise.nil
  ids_lt_next := by simp
  indices_monotone := List.Pairwise.nil
  indices_le_length := by simp

/-- `sort.Search(len(validRevisions), func(i) { return validRevisions[i].id >= revid })`: the
first position whose id reaches `revid`. The predicate is monotone because ids increase, and
for a monotone predicate the documented result of `sort.Search` is this first position. -/
def searchRevision (revisions : List Revision) (revid : Nat) : Nat :=
  revisions.findIdx (fun r => decide (revid ≤ r.id))

theorem take_indices_le {j : Journal ε} {idx : Nat} {r : Revision}
    (hr : j.validRevisions[idx]? = some r) :
    ∀ r' ∈ j.validRevisions.take idx, r'.journalIndex ≤ r.journalIndex := by
  intro r' hr'
  obtain ⟨i, hi, rfl⟩ := List.getElem_of_mem hr'
  have hilen : i < idx := by
    rw [List.length_take] at hi
    omega
  have hidx : idx < j.validRevisions.length := (List.getElem?_eq_some_iff.mp hr).1
  have hget : j.validRevisions[idx] = r := (List.getElem?_eq_some_iff.mp hr).2
  rw [List.getElem_take, ← hget]
  exact List.pairwise_iff_getElem.mp j.indices_monotone i idx (by omega) hidx hilen

/-- The revision stack truncated below position `idx`, with the journal cut back to the length
recorded at `idx`. -/
def truncate (j : Journal ε) (idx : Nat) (r : Revision) (hr : j.validRevisions[idx]? = some r) :
    Journal ε where
  entries := j.entries.drop (j.entries.length - r.journalIndex)
  validRevisions := j.validRevisions.take idx
  nextRevisionId := j.nextRevisionId
  ids_increasing := j.ids_increasing.sublist (List.take_sublist _ _)
  ids_lt_next := fun r' hr' => j.ids_lt_next r' (List.mem_of_mem_take hr')
  indices_monotone := j.indices_monotone.sublist (List.take_sublist _ _)
  indices_le_length := by
    intro r' hr'
    have hle := take_indices_le hr r' hr'
    have hrlen : r.journalIndex ≤ j.entries.length :=
      j.indices_le_length r (List.mem_of_getElem? hr)
    rw [List.length_drop]
    omega

/-- The first half of `RevertToSnapshot`: `none` where the code panics with "revision id cannot
be reverted", otherwise the entries to undo (newest first) and the truncated journal. -/
def revert? (j : Journal ε) (revid : Nat) : Option (List ε × Journal ε) :=
  let idx := searchRevision j.validRevisions revid
  match hr : j.validRevisions[idx]? with
  | none => none
  | some r =>
      if r.id = revid then
        some (j.entries.take (j.entries.length - r.journalIndex), j.truncate idx r hr)
      else none

theorem searchRevision_snapshot (j : Journal ε) :
    searchRevision j.snapshot.2.validRevisions j.snapshot.1 = j.validRevisions.length := by
  have hbelow : ∀ r ∈ j.validRevisions, decide (j.nextRevisionId ≤ r.id) = false := by
    intro r hr
    simpa using j.ids_lt_next r hr
  show (j.validRevisions ++ ([⟨j.nextRevisionId, j.entries.length⟩] : List Revision)).findIdx
    (fun r : Revision => decide (j.nextRevisionId ≤ r.id)) = _
  rw [List.findIdx_append, List.findIdx_eq_length_of_false hbelow]
  simp

/-- The journal after appending `es`, oldest first from the end of the list: `es` is newest
first, as the entries are kept. -/
def appendAll (j : Journal ε) (es : List ε) : Journal ε := es.foldr (fun e j => j.append e) j

@[simp] theorem appendAll_entries (j : Journal ε) (es : List ε) :
    (j.appendAll es).entries = es ++ j.entries := by
  induction es with
  | nil => rfl
  | cons e es ih =>
      simp only [appendAll, List.foldr_cons] at ih ⊢
      rw [append_entries, ih, List.cons_append]

@[simp] theorem appendAll_validRevisions (j : Journal ε) (es : List ε) :
    (j.appendAll es).validRevisions = j.validRevisions := by
  induction es with
  | nil => rfl
  | cons e es ih =>
      simp only [appendAll, List.foldr_cons] at ih ⊢
      rw [append_validRevisions, ih]

/-- Reverting to a snapshot after appending `es` undoes exactly `es` and restores the entries
and the stack the snapshot saw. -/
theorem revert?_snapshot_appendAll (j : Journal ε) (es : List ε) :
    ∃ j', (j.snapshot.2.appendAll es).revert? j.snapshot.1 = some (es, j') ∧
      j'.entries = j.entries ∧ j'.validRevisions = j.validRevisions := by
  have hsearch : searchRevision (j.snapshot.2.appendAll es).validRevisions j.snapshot.1 =
      j.validRevisions.length := by
    rw [appendAll_validRevisions, searchRevision_snapshot]
  have htop : (j.snapshot.2.appendAll es).validRevisions[j.validRevisions.length]? =
      some ⟨j.nextRevisionId, j.entries.length⟩ := by
    simp [snapshot]
  have hlen : (j.snapshot.2.appendAll es).entries.length - j.entries.length = es.length := by
    simp [snapshot]
  unfold revert?
  dsimp only
  split
  · rename_i hnone
    rw [hsearch, htop] at hnone
    cases hnone
  · rename_i r hr
    have htop' := hr
    rw [hsearch, htop] at htop'
    cases htop'
    refine ⟨(j.snapshot.2.appendAll es).truncate _ _ hr, ?_, ?_, ?_⟩
    · simp only [hlen]
      simp [snapshot]
    · simp only [truncate, hlen]
      simp [snapshot]
    · show (j.snapshot.2.appendAll es).validRevisions.take
        (searchRevision (j.snapshot.2.appendAll es).validRevisions j.snapshot.1) = _
      rw [hsearch]
      simp [snapshot]

/-- Undo a list of entries, newest first, stopping at the first panic. -/
def undoAll {σ π : Type} (undo : ε → σ → Except π σ) : List ε → σ → Except π σ
  | [], s => .ok s
  | e :: rest, s => (undo e s).bind (undoAll undo rest)

/-! ## Entries after a mark

A caller that notes the journal length `k` and the next revision id `i`, and from then on appends
only entries satisfying `P`, can revert to any snapshot it takes afterwards and undo only such
entries: nested frames that revert to their own snapshots never reach below the mark. -/

/-- The entries after mark `k` satisfy `P`, every revision numbered from `i` on records a length
at or after the mark, and `i` is not beyond the next id. -/
structure Since (P : ε → Prop) (k i : Nat) (j : Journal ε) : Prop where
  mark_le : k ≤ j.entries.length
  after : ∀ e ∈ j.entries.take (j.entries.length - k), P e
  revisions : ∀ r ∈ j.validRevisions, i ≤ r.id → k ≤ r.journalIndex
  next : i ≤ j.nextRevisionId

variable {P : ε → Prop} {k i : Nat} {j : Journal ε}

theorem Since.mark (P : ε → Prop) (j : Journal ε) : j.Since P j.entries.length j.nextRevisionId where
  mark_le := Nat.le_refl _
  after := by simp
  revisions := fun r hr hi => absurd (j.ids_lt_next r hr) (Nat.not_lt.mpr hi)
  next := Nat.le_refl _

theorem Since.append (h : j.Since P k i) {e : ε} (he : P e) : (j.append e).Since P k i where
  mark_le := by simp only [append_entries, List.length_cons]; exact Nat.le_succ_of_le h.mark_le
  after := by
    have hk := h.mark_le
    simp only [append_entries, List.length_cons]
    rw [show j.entries.length + 1 - k = (j.entries.length - k) + 1 by omega, List.take_succ_cons]
    rintro x (_ | ⟨_, hx⟩)
    · exact he
    · exact h.after x hx
  revisions := h.revisions
  next := h.next

theorem Since.snapshot (h : j.Since P k i) : j.snapshot.2.Since P k i where
  mark_le := h.mark_le
  after := h.after
  revisions := by
    intro r hr hi
    rcases List.mem_append.mp hr with hr | hr
    · exact h.revisions r hr hi
    · simp only [List.mem_singleton] at hr
      subst hr
      exact h.mark_le
  next := Nat.le_succ_of_le h.next

theorem Since.revert (h : j.Since P k i) {revid : Nat} (hid : i ≤ revid) {es : List ε}
    {j' : Journal ε} (hr : j.revert? revid = some (es, j')) : (∀ e ∈ es, P e) ∧ j'.Since P k i := by
  unfold Journal.revert? at hr
  dsimp only at hr
  split at hr
  · cases hr
  · rename_i r hget
    split at hr
    · rename_i hid'
      cases hr
      have hrev : k ≤ r.journalIndex :=
        h.revisions r (List.mem_of_getElem? hget) (hid'.symm ▸ hid)
      have hlen : r.journalIndex ≤ j.entries.length :=
        j.indices_le_length r (List.mem_of_getElem? hget)
      refine ⟨fun e he => h.after e ((List.take_prefix_take_left (by omega)).subset he), ?_⟩
      exact
        { mark_le := by simp only [truncate, List.length_drop]; omega
          after := by
            intro e he
            simp only [truncate, List.length_drop, List.take_drop] at he
            apply h.after e
            rw [show j.entries.length - r.journalIndex + (j.entries.length -
              (j.entries.length - r.journalIndex) - k) = j.entries.length - k by omega] at he
            exact List.mem_of_mem_drop he
          revisions := fun r' hr' => h.revisions r' (List.mem_of_mem_take hr')
          next := h.next }
    · cases hr

theorem undoAll_invariant {σ π : Type} {undo : ε → σ → Except π σ} {Q : σ → Prop} {es : List ε}
    (hstep : ∀ e ∈ es, ∀ s s', Q s → undo e s = .ok s' → Q s') :
    ∀ {s s' : σ}, Q s → undoAll undo es s = .ok s' → Q s' := by
  induction es with
  | nil =>
      intro s s' hs h
      cases h
      exact hs
  | cons e es ih =>
      intro s s' hs h
      simp only [undoAll] at h
      rcases hu : undo e s with p | s₁
      · rw [hu] at h
        cases h
      · rw [hu] at h
        exact ih (fun x hx => hstep x (List.mem_cons_of_mem e hx))
          (hstep e List.mem_cons_self s s₁ hs hu) h

end Journal
