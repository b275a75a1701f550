import Mathlib
/-!
# Finite maps as strictly sorted association lists

A Go `map` that is read through lookups, insertions, deletions and `range` loops, and a Merkle trie
read as the key/value map it commits to, are both finite maps. Keeping the entries strictly sorted
by key makes the representation canonical: two maps with the same lookups are the same value
(`SortedMap.ext`), so anything computed from the entry list is a function of the lookups, and
equality is decided by comparing entry lists. A `range` loop visits the entries in key order, one
of the orders Go may choose. Every operation is structural recursion on the entry list, so small
concrete maps evaluate by `decide`.
-/

/-- A finite map whose entries are strictly sorted by key. -/
structure SortedMap (κ ν : Type) [LinearOrder κ] where
  entries : List (κ × ν)
  sorted : (entries.map Prod.fst).Pairwise (· < ·)

namespace SortedMap

variable {κ ν : Type} [LinearOrder κ]

/-! ### Operations on entry lists -/

/-- The value stored under `k`, found by a linear scan. -/
def lookupRaw (k : κ) : List (κ × ν) → Option ν
  | [] => none
  | (k', v) :: rest => if k = k' then some v else lookupRaw k rest

/-- Insert or overwrite `k` at its sorted position. -/
def insertRaw (k : κ) (v : ν) : List (κ × ν) → List (κ × ν)
  | [] => [(k, v)]
  | (k', v') :: rest =>
      if k < k' then (k, v) :: (k', v') :: rest
      else if k = k' then (k, v) :: rest
      else (k', v') :: insertRaw k v rest

/-- Remove the entry of `k`, if any. -/
def eraseRaw (k : κ) : List (κ × ν) → List (κ × ν)
  | [] => []
  | (k', v') :: rest => if k = k' then rest else (k', v') :: eraseRaw k rest

theorem mem_keys_insertRaw {k x : κ} {v : ν} {l : List (κ × ν)}
    (hx : x ∈ (insertRaw k v l).map Prod.fst) : x = k ∨ x ∈ l.map Prod.fst := by
  induction l with
  | nil => simp [insertRaw] at hx; exact .inl hx
  | cons e rest ih =>
      obtain ⟨k', v'⟩ := e
      simp only [insertRaw] at hx
      split_ifs at hx with hlt heq
      · simp only [List.map_cons, List.mem_cons] at hx ⊢
        tauto
      · simp only [List.map_cons, List.mem_cons] at hx ⊢
        tauto
      · simp only [List.map_cons, List.mem_cons] at hx ⊢
        rcases hx with rfl | hx
        · exact .inr (.inl rfl)
        · rcases ih hx with h | h
          · exact .inl h
          · exact .inr (.inr h)

theorem mem_keys_eraseRaw {k x : κ} {l : List (κ × ν)}
    (hx : x ∈ (eraseRaw k l).map Prod.fst) : x ∈ l.map Prod.fst := by
  induction l with
  | nil => simp [eraseRaw] at hx
  | cons e rest ih =>
      obtain ⟨k', v'⟩ := e
      simp only [eraseRaw] at hx
      split_ifs at hx
      · exact List.mem_cons_of_mem _ hx
      · simp only [List.map_cons, List.mem_cons] at hx ⊢
        exact hx.imp_right ih

theorem sorted_insertRaw (k : κ) (v : ν) {l : List (κ × ν)}
    (hl : (l.map Prod.fst).Pairwise (· < ·)) :
    ((insertRaw k v l).map Prod.fst).Pairwise (· < ·) := by
  induction l with
  | nil => simp [insertRaw]
  | cons e rest ih =>
      obtain ⟨k', v'⟩ := e
      simp only [List.map_cons, List.pairwise_cons] at hl
      obtain ⟨hhead, hrest⟩ := hl
      simp only [insertRaw]
      split_ifs with hlt heq
      · simp only [List.map_cons, List.pairwise_cons, List.mem_cons]
        refine ⟨?_, hhead, hrest⟩
        rintro x (rfl | hx)
        · exact hlt
        · exact lt_trans hlt (hhead x hx)
      · subst heq
        simpa only [List.map_cons, List.pairwise_cons] using ⟨hhead, hrest⟩
      · simp only [List.map_cons, List.pairwise_cons]
        refine ⟨fun x hx => ?_, ih hrest⟩
        rcases mem_keys_insertRaw hx with rfl | hx
        · exact lt_of_le_of_ne (not_lt.mp hlt) (Ne.symm heq)
        · exact hhead x hx

theorem sorted_eraseRaw (k : κ) {l : List (κ × ν)}
    (hl : (l.map Prod.fst).Pairwise (· < ·)) :
    ((eraseRaw k l).map Prod.fst).Pairwise (· < ·) := by
  induction l with
  | nil => simp [eraseRaw]
  | cons e rest ih =>
      obtain ⟨k', v'⟩ := e
      simp only [List.map_cons, List.pairwise_cons] at hl
      simp only [eraseRaw]
      split_ifs
      · exact hl.2
      · simp only [List.map_cons, List.pairwise_cons]
        exact ⟨fun x hx => hl.1 x (mem_keys_eraseRaw hx), ih hl.2⟩

theorem lookupRaw_eq_none_of_lt {k : κ} {l : List (κ × ν)}
    (hlt : ∀ x ∈ l.map Prod.fst, k < x) : lookupRaw k l = none := by
  induction l with
  | nil => rfl
  | cons e rest ih =>
      obtain ⟨k', v'⟩ := e
      simp only [List.map_cons, List.mem_cons, forall_eq_or_imp] at hlt
      simp only [lookupRaw, if_neg (ne_of_lt hlt.1)]
      exact ih hlt.2

theorem sum_insertRaw (f : ν → Nat) {k : κ} {v v₀ : ν} {l : List (κ × ν)}
    (hl : (l.map Prod.fst).Pairwise (· < ·)) (h : lookupRaw k l = some v₀) :
    ((insertRaw k v l).map fun e => f e.2).sum + f v₀ = (l.map fun e => f e.2).sum + f v := by
  induction l with
  | nil => simp [lookupRaw] at h
  | cons e rest ih =>
      obtain ⟨k', v'⟩ := e
      simp only [List.map_cons, List.pairwise_cons] at hl
      by_cases hlt : k < k'
      · have hnone : lookupRaw k ((k', v') :: rest) = none := by
          apply lookupRaw_eq_none_of_lt
          simp only [List.map_cons, List.mem_cons, forall_eq_or_imp]
          exact ⟨hlt, fun x hx => lt_trans hlt (hl.1 x hx)⟩
        rw [hnone] at h
        cases h
      · by_cases heq : k = k'
        · subst heq
          simp only [lookupRaw, if_true, Option.some.injEq] at h
          subst h
          simp only [insertRaw, if_neg hlt, if_true, List.map_cons, List.sum_cons]
          omega
        · simp only [lookupRaw, if_neg heq] at h
          have hrest := ih hl.2 h
          simp only [insertRaw, if_neg hlt, if_neg heq, List.map_cons, List.sum_cons]
          omega

theorem lookupRaw_insertRaw (x k : κ) (v : ν) (l : List (κ × ν)) :
    lookupRaw x (insertRaw k v l) = if x = k then some v else lookupRaw x l := by
  induction l with
  | nil => simp [insertRaw, lookupRaw]
  | cons e rest ih =>
      obtain ⟨k', v'⟩ := e
      simp only [insertRaw]
      split_ifs with hlt heq hxk <;> simp_all [lookupRaw]

theorem lookupRaw_eraseRaw (x k : κ) {l : List (κ × ν)}
    (hl : (l.map Prod.fst).Pairwise (· < ·)) :
    lookupRaw x (eraseRaw k l) = if x = k then none else lookupRaw x l := by
  induction l with
  | nil => simp [eraseRaw, lookupRaw]
  | cons e rest ih =>
      obtain ⟨k', v'⟩ := e
      simp only [List.map_cons, List.pairwise_cons] at hl
      by_cases hkk : k = k'
      · subst hkk
        by_cases hxk : x = k
        · subst hxk
          simp [eraseRaw, lookupRaw_eq_none_of_lt hl.1]
        · simp [eraseRaw, lookupRaw, hxk]
      · by_cases hxk : x = k
        · subst hxk
          simp [eraseRaw, lookupRaw, hkk, ih hl.2]
        · simp [eraseRaw, lookupRaw, hkk, hxk, ih hl.2]

theorem eq_of_lookupRaw_eq {l₁ l₂ : List (κ × ν)}
    (h₁ : (l₁.map Prod.fst).Pairwise (· < ·)) (h₂ : (l₂.map Prod.fst).Pairwise (· < ·))
    (hlook : ∀ x, lookupRaw x l₁ = lookupRaw x l₂) : l₁ = l₂ := by
  induction l₁ generalizing l₂ with
  | nil =>
      cases l₂ with
      | nil => rfl
      | cons e rest =>
          have := hlook e.1
          simp [lookupRaw] at this
  | cons e₁ rest₁ ih =>
      cases l₂ with
      | nil =>
          have := hlook e₁.1
          simp [lookupRaw] at this
      | cons e₂ rest₂ =>
          obtain ⟨k₁, v₁⟩ := e₁
          obtain ⟨k₂, v₂⟩ := e₂
          simp only [List.map_cons, List.pairwise_cons] at h₁ h₂
          -- the smaller head key would be missing from the other list
          have hkey : k₁ = k₂ := by
            rcases lt_trichotomy k₁ k₂ with hlt | heq | hgt
            · have hmiss : lookupRaw k₁ ((k₂, v₂) :: rest₂) = none := by
                simp only [lookupRaw, if_neg (ne_of_lt hlt)]
                exact lookupRaw_eq_none_of_lt (fun x hx => lt_trans hlt (h₂.1 x hx))
              have := hlook k₁
              rw [hmiss] at this
              simp [lookupRaw] at this
            · exact heq
            · have hmiss : lookupRaw k₂ ((k₁, v₁) :: rest₁) = none := by
                simp only [lookupRaw, if_neg (ne_of_lt hgt)]
                exact lookupRaw_eq_none_of_lt (fun x hx => lt_trans hgt (h₁.1 x hx))
              have := hlook k₂
              rw [hmiss] at this
              simp [lookupRaw] at this
          subst hkey
          have hval : v₁ = v₂ := by
            have := hlook k₁
            simpa [lookupRaw] using this
          subst hval
          congr 1
          refine ih h₁.2 h₂.2 fun x => ?_
          have := hlook x
          by_cases hx : x = k₁
          · subst hx
            rw [lookupRaw_eq_none_of_lt h₁.1, lookupRaw_eq_none_of_lt h₂.1]
          · simpa [lookupRaw, hx] using this

theorem eraseRaw_of_lookupRaw_eq_none {k : κ} :
    ∀ {l : List (κ × ν)}, lookupRaw k l = none → eraseRaw k l = l
  | [], _ => rfl
  | (k', v') :: rest, h => by
      have hne : k ≠ k' := fun heq => by simp [lookupRaw, heq] at h
      have hrest : lookupRaw k rest = none := by simpa [lookupRaw, hne] using h
      rw [eraseRaw, if_neg hne, eraseRaw_of_lookupRaw_eq_none hrest]

/-- A present entry and the others. -/
theorem perm_eraseRaw_of_lookupRaw {k : κ} {v₀ : ν} :
    ∀ {l : List (κ × ν)}, lookupRaw k l = some v₀ → l.Perm ((k, v₀) :: eraseRaw k l)
  | [], h => by cases h
  | (k', v') :: rest, h => by
      by_cases hk : k = k'
      · subst hk
        simp only [lookupRaw, if_true, Option.some.injEq] at h
        subst h
        rw [eraseRaw, if_pos rfl]
      · simp only [lookupRaw, if_neg hk] at h
        rw [eraseRaw, if_neg hk]
        exact ((perm_eraseRaw_of_lookupRaw h).cons _).trans (List.Perm.swap _ _ _)

/-- Inserting is erasing, then adding the new entry. -/
theorem perm_insertRaw_eraseRaw (k : κ) (v : ν) :
    ∀ {l : List (κ × ν)}, (l.map Prod.fst).Pairwise (· < ·) →
      (insertRaw k v l).Perm ((k, v) :: eraseRaw k l)
  | [], _ => List.Perm.refl _
  | (k', v') :: rest, hl => by
      rw [List.map_cons, List.pairwise_cons] at hl
      unfold insertRaw
      by_cases hlt : k < k'
      · have hnone : lookupRaw k ((k', v') :: rest) = none := by
          apply lookupRaw_eq_none_of_lt
          simp only [List.map_cons, List.mem_cons, forall_eq_or_imp]
          exact ⟨hlt, fun x hx => lt_trans hlt (hl.1 x hx)⟩
        rw [if_pos hlt, eraseRaw_of_lookupRaw_eq_none hnone]
      · by_cases heq : k = k'
        · rw [if_neg hlt, if_pos heq, eraseRaw, if_pos heq]
        · rw [if_neg hlt, if_neg heq, eraseRaw, if_neg heq]
          exact ((perm_insertRaw_eraseRaw k v hl.2).cons _).trans (List.Perm.swap _ _ _)

/-! ### Entry lists split at a key

An implementation that keeps its own sorted array finds the place of a key first, then works at
that place. These lemmas say that the entries below the key are passed over by every operation
at the key, and what each does with the entry at that place. -/

section Split

variable {k : κ} {pre : List (κ × ν)}

theorem lookupRaw_append_of_lt (hpre : ∀ x ∈ pre.map Prod.fst, x < k) (post : List (κ × ν)) :
    lookupRaw k (pre ++ post) = lookupRaw k post := by
  induction pre with
  | nil => rfl
  | cons e rest ih =>
      obtain ⟨k', v'⟩ := e
      simp only [List.map_cons, List.mem_cons, forall_eq_or_imp] at hpre
      rw [List.cons_append, lookupRaw, if_neg (ne_of_lt hpre.1).symm, ih hpre.2]

theorem insertRaw_append_of_lt (hpre : ∀ x ∈ pre.map Prod.fst, x < k) (v : ν)
    (post : List (κ × ν)) : insertRaw k v (pre ++ post) = pre ++ insertRaw k v post := by
  induction pre with
  | nil => rfl
  | cons e rest ih =>
      obtain ⟨k', v'⟩ := e
      simp only [List.map_cons, List.mem_cons, forall_eq_or_imp] at hpre
      rw [List.cons_append, insertRaw, if_neg (not_lt.mpr hpre.1.le),
        if_neg (ne_of_lt hpre.1).symm, ih hpre.2, List.cons_append]

theorem eraseRaw_append_of_lt (hpre : ∀ x ∈ pre.map Prod.fst, x < k) (post : List (κ × ν)) :
    eraseRaw k (pre ++ post) = pre ++ eraseRaw k post := by
  induction pre with
  | nil => rfl
  | cons e rest ih =>
      obtain ⟨k', v'⟩ := e
      simp only [List.map_cons, List.mem_cons, forall_eq_or_imp] at hpre
      rw [List.cons_append, eraseRaw, if_neg (ne_of_lt hpre.1).symm, ih hpre.2, List.cons_append]

theorem insertRaw_of_lt {l : List (κ × ν)} (hl : ∀ x ∈ l.map Prod.fst, k < x) (v : ν) :
    insertRaw k v l = (k, v) :: l := by
  cases l with
  | nil => rfl
  | cons e rest =>
      obtain ⟨k', v'⟩ := e
      rw [insertRaw, if_pos (hl k' List.mem_cons_self)]

@[simp] theorem lookupRaw_cons_self (v : ν) (l : List (κ × ν)) :
    lookupRaw k ((k, v) :: l) = some v := by
  rw [lookupRaw, if_pos rfl]

@[simp] theorem insertRaw_cons_self (v v' : ν) (l : List (κ × ν)) :
    insertRaw k v ((k, v') :: l) = (k, v) :: l := by
  rw [insertRaw, if_neg (lt_irrefl k), if_pos rfl]

@[simp] theorem eraseRaw_cons_self (v' : ν) (l : List (κ × ν)) : eraseRaw k ((k, v') :: l) = l := by
  rw [eraseRaw, if_pos rfl]

end Split

/-! ### The map interface -/

instance : EmptyCollection (SortedMap κ ν) := ⟨⟨[], List.Pairwise.nil⟩⟩

/-- Lookup, as Go's `v, ok := m[k]`. -/
def get? (m : SortedMap κ ν) (k : κ) : Option ν := lookupRaw k m.entries

/-- Assignment, as Go's `m[k] = v`. -/
def insert (m : SortedMap κ ν) (k : κ) (v : ν) : SortedMap κ ν :=
  ⟨insertRaw k v m.entries, sorted_insertRaw k v m.sorted⟩

/-- Deletion, as Go's `delete(m, k)`. -/
def erase (m : SortedMap κ ν) (k : κ) : SortedMap κ ν :=
  ⟨eraseRaw k m.entries, sorted_eraseRaw k m.sorted⟩

theorem entries_insert (m : SortedMap κ ν) (k : κ) (v : ν) :
    (m.insert k v).entries = insertRaw k v m.entries := rfl

theorem entries_erase (m : SortedMap κ ν) (k : κ) :
    (m.erase k).entries = eraseRaw k m.entries := rfl

/-- Membership of a key, as Go's `_, ok := m[k]`. -/
def contains (m : SortedMap κ ν) (k : κ) : Bool := (m.get? k).isSome

/-- The keys in the order a `range` loop visits them. -/
def keys (m : SortedMap κ ν) : List κ := m.entries.map Prod.fst

/-- A `range` loop accumulating over the entries in key order. -/
def foldl {δ : Type} (f : δ → κ → ν → δ) (init : δ) (m : SortedMap κ ν) : δ :=
  m.entries.foldl (fun acc e => f acc e.1 e.2) init

instance [DecidableEq ν] : DecidableEq (SortedMap κ ν) := fun a b =>
  decidable_of_iff (a.entries = b.entries) (by
    cases a
    cases b
    simp)

@[simp] theorem get?_empty (k : κ) : (∅ : SortedMap κ ν).get? k = none := rfl

@[simp] theorem get?_insert (m : SortedMap κ ν) (x k : κ) (v : ν) :
    (m.insert k v).get? x = if x = k then some v else m.get? x :=
  lookupRaw_insertRaw x k v m.entries

@[simp] theorem get?_erase (m : SortedMap κ ν) (x k : κ) :
    (m.erase k).get? x = if x = k then none else m.get? x :=
  lookupRaw_eraseRaw x k m.sorted

@[simp] theorem contains_eq (m : SortedMap κ ν) (k : κ) : m.contains k = (m.get? k).isSome := rfl

theorem sum_insert (m : SortedMap κ ν) (f : ν → Nat) {k : κ} {v v₀ : ν} (h : m.get? k = some v₀) :
    ((m.insert k v).entries.map fun e => f e.2).sum + f v₀ =
      (m.entries.map fun e => f e.2).sum + f v :=
  sum_insertRaw f m.sorted h

/-- Canonicity: a sorted map is determined by its lookups. -/
@[ext] theorem ext {m₁ m₂ : SortedMap κ ν} (h : ∀ k, m₁.get? k = m₂.get? k) : m₁ = m₂ := by
  obtain ⟨l₁, h₁⟩ := m₁
  obtain ⟨l₂, h₂⟩ := m₂
  have := eq_of_lookupRaw_eq h₁ h₂ h
  subst this
  rfl

theorem mem_keys_iff (m : SortedMap κ ν) (k : κ) : k ∈ m.keys ↔ (m.get? k).isSome := by
  obtain ⟨l, hl⟩ := m
  simp only [keys, get?]
  clear hl
  induction l with
  | nil => simp [lookupRaw]
  | cons e rest ih =>
      obtain ⟨k', v'⟩ := e
      by_cases hk : k = k' <;> simp [lookupRaw, hk, ih]

/-- Inserting a fresh key adds one entry and keeps the others. -/
theorem perm_insertRaw_of_lookupRaw_eq_none {k : κ} {v : ν} :
    ∀ {l : List (κ × ν)}, lookupRaw k l = none → (insertRaw k v l).Perm ((k, v) :: l)
  | [], _ => List.Perm.refl _
  | (k', v') :: rest, h => by
      unfold insertRaw
      by_cases hlt : k < k'
      · rw [if_pos hlt]
      · have hne : k ≠ k' := fun heq => by simp [lookupRaw, heq] at h
        rw [if_neg hlt, if_neg hne]
        have hrest : lookupRaw k rest = none := by simpa [lookupRaw, hne] using h
        exact ((perm_insertRaw_of_lookupRaw_eq_none hrest).cons _).trans (List.Perm.swap _ _ _)

theorem perm_insert_of_get?_eq_none (m : SortedMap κ ν) {k : κ} (v : ν) (h : m.get? k = none) :
    (m.insert k v).entries.Perm ((k, v) :: m.entries) :=
  perm_insertRaw_of_lookupRaw_eq_none h

theorem perm_erase_of_get? (m : SortedMap κ ν) {k : κ} {v₀ : ν} (h : m.get? k = some v₀) :
    m.entries.Perm ((k, v₀) :: (m.erase k).entries) :=
  perm_eraseRaw_of_lookupRaw h

theorem perm_insert_erase (m : SortedMap κ ν) (k : κ) (v : ν) :
    (m.insert k v).entries.Perm ((k, v) :: (m.erase k).entries) :=
  perm_insertRaw_eraseRaw k v m.sorted

theorem mem_entries_iff (m : SortedMap κ ν) (k : κ) (v : ν) :
    (k, v) ∈ m.entries ↔ m.get? k = some v := by
  obtain ⟨l, hl⟩ := m
  simp only [get?]
  induction l with
  | nil => simp [lookupRaw]
  | cons e rest ih =>
      obtain ⟨k', v'⟩ := e
      rw [List.map_cons, List.pairwise_cons] at hl
      by_cases hk : k = k'
      · subst hk
        have hrest : (k, v) ∉ rest := fun hmem =>
          lt_irrefl k (hl.1 k (List.mem_map.mpr ⟨(k, v), hmem, rfl⟩))
        simp [lookupRaw, hrest, eq_comm]
      · simp [lookupRaw, hk, ih hl.2]

theorem mem_erase_entries (m : SortedMap κ ν) (k : κ) (e : κ × ν) :
    e ∈ (m.erase k).entries ↔ e.1 ≠ k ∧ e ∈ m.entries := by
  obtain ⟨a, b⟩ := e
  rw [mem_entries_iff, mem_entries_iff, get?_erase]
  by_cases hk : a = k <;> simp [hk]

theorem mem_insert_entries (m : SortedMap κ ν) (k : κ) (v : ν) (e : κ × ν) :
    e ∈ (m.insert k v).entries ↔ e = (k, v) ∨ (e.1 ≠ k ∧ e ∈ m.entries) := by
  obtain ⟨a, b⟩ := e
  rw [mem_entries_iff, mem_entries_iff, get?_insert]
  by_cases hk : a = k
  · subst hk
    simp [eq_comm]
  · simp [hk]

theorem erase_of_get?_eq_none (m : SortedMap κ ν) {k : κ} (h : m.get? k = none) : m.erase k = m := by
  ext x
  rw [get?_erase]
  split
  · rename_i hx
    rw [hx, h]
  · rfl

/-- A `range` loop that appends one value for each entry it does not skip builds the list of the
kept entries' values, in key order. -/
theorem foldl_append {δ : Type} (skip : κ → ν → Bool) (g : κ → ν → δ) (init : List δ)
    (m : SortedMap κ ν) :
    m.foldl (fun acc k v => if skip k v then acc else acc ++ [g k v]) init =
      init ++ (m.entries.filter fun e => !skip e.1 e.2).map fun e => g e.1 e.2 := by
  unfold foldl
  induction m.entries generalizing init with
  | nil => simp
  | cons e rest ih =>
      cases h : skip e.1 e.2 <;> simp [h, ih]

theorem eq_of_mem_entries (m : SortedMap κ ν) {e r : κ × ν} (he : e ∈ m.entries)
    (hr : r ∈ m.entries) (h : e.1 = r.1) : e = r := by
  obtain ⟨k, v⟩ := e
  obtain ⟨k', v'⟩ := r
  dsimp only at h
  subst h
  rw [mem_entries_iff] at he hr
  obtain rfl := Option.some.inj (he.symm.trans hr)
  rfl

/-- On sorted entries, deleting a key is filtering it out: no later entry has it. -/
theorem eraseRaw_eq_filter (k : κ) :
    ∀ {l : List (κ × ν)}, (l.map Prod.fst).Pairwise (· < ·) → eraseRaw k l = l.filter fun e => e.1 ≠ k
  | [], _ => rfl
  | (k', v') :: rest, hl => by
      rw [List.map_cons, List.pairwise_cons] at hl
      by_cases hk : k = k'
      · subst hk
        have hrest : (rest.filter fun e => e.1 ≠ k) = rest := List.filter_eq_self.mpr fun e he => by
          have hlt := hl.1 e.1 (List.mem_map_of_mem he)
          simp [ne_of_gt hlt]
        rw [eraseRaw, if_pos rfl, List.filter_cons_of_neg (by simp), hrest]
      · rw [eraseRaw, if_neg hk, List.filter_cons_of_pos (by simp [Ne.symm hk]),
          eraseRaw_eq_filter k hl.2]

theorem entries_foldl_erase (ks : List κ) (m : SortedMap κ ν) :
    (ks.foldl (fun m k => m.erase k) m).entries = m.entries.filter fun e => e.1 ∉ ks := by
  induction ks generalizing m with
  | nil => simp
  | cons k ks ih =>
      rw [List.foldl_cons, ih, entries_erase, eraseRaw_eq_filter k m.sorted, List.filter_filter]
      apply List.filter_congr
      intro e _
      simp [Bool.and_comm]

theorem get?_foldl_erase (ks : List κ) (m : SortedMap κ ν) (x : κ) :
    (ks.foldl (fun m k => m.erase k) m).get? x = if x ∈ ks then none else m.get? x := by
  induction ks generalizing m with
  | nil => simp
  | cons k ks ih =>
      rw [List.foldl_cons, ih, get?_erase]
      by_cases hx : x = k <;> simp [hx]

theorem keys_filter_sorted (m : SortedMap κ ν) (p : κ × ν → Bool) :
    ((m.entries.filter p).map Prod.fst).Pairwise (· < ·) :=
  m.sorted.sublist ((List.filter_sublist).map _)

/-! ### The first and the last entry -/

theorem keys_nodup (m : SortedMap κ ν) : m.keys.Nodup := m.sorted.nodup

theorem entries_eq_cons_of_le (m : SortedMap κ ν) {k : κ} (hk : k ∈ m.keys)
    (hle : ∀ x ∈ m.keys, k ≤ x) : ∃ v rest, m.entries = (k, v) :: rest := by
  obtain ⟨l, hl⟩ := m
  cases l with
  | nil => cases hk
  | cons e rest =>
      obtain ⟨k', v⟩ := e
      have hhead : k' = k := by
        rcases List.mem_cons.mp hk with heq | hlater
        · exact heq.symm
        · have hlt : k' < k := List.rel_of_pairwise_cons hl hlater
          exact absurd (hle k' List.mem_cons_self) (not_le.mpr hlt)
      exact ⟨v, rest, show (k', v) :: rest = (k, v) :: rest by rw [hhead]⟩

theorem le_of_entries_eq_cons (m : SortedMap κ ν) {k : κ} {v : ν} {rest : List (κ × ν)}
    (h : m.entries = (k, v) :: rest) : ∀ e ∈ m.entries, k ≤ e.1 := by
  intro e he
  have hs := m.sorted
  rw [h] at hs he
  rcases List.mem_cons.mp he with rfl | hlater
  · exact le_rfl
  · exact (List.rel_of_pairwise_cons hs (List.mem_map_of_mem hlater)).le

theorem entries_erase_of_cons (m : SortedMap κ ν) {k : κ} {v : ν} {rest : List (κ × ν)}
    (h : m.entries = (k, v) :: rest) : (m.erase k).entries = rest := by
  rw [entries_erase, h, eraseRaw_cons_self]

theorem entries_erase_of_last (m : SortedMap κ ν) {k : κ} {v : ν} {pre : List (κ × ν)}
    (h : m.entries = pre ++ [(k, v)]) : (m.erase k).entries = pre := by
  have hlt : ∀ x ∈ pre.map Prod.fst, x < k := by
    have hs := m.sorted
    rw [h, List.map_append, List.pairwise_append] at hs
    exact fun x hx => hs.2.2 x hx k List.mem_cons_self
  rw [entries_erase, h, eraseRaw_append_of_lt hlt, eraseRaw_cons_self, List.append_nil]

theorem keys_perm_erase (m : SortedMap κ ν) {k : κ} {v₀ : ν} (h : m.get? k = some v₀) :
    m.keys.Perm (k :: (m.erase k).keys) :=
  (perm_erase_of_get? m h).map Prod.fst

theorem keys_insert_perm (m : SortedMap κ ν) {k : κ} {v₀ : ν} (h : m.get? k = some v₀) (v : ν) :
    (m.insert k v).keys.Perm m.keys :=
  ((perm_insert_erase m k v).map Prod.fst).trans (keys_perm_erase m h).symm

theorem eq_of_entries_eq {m₁ m₂ : SortedMap κ ν} (h : m₁.entries = m₂.entries) : m₁ = m₂ := by
  obtain ⟨l₁, h₁⟩ := m₁
  obtain ⟨l₂, h₂⟩ := m₂
  cases h
  rfl

theorem entries_foldl_erase_pairs (rem : List (κ × ν)) (m : SortedMap κ ν) :
    (rem.foldl (fun m e => m.erase e.1) m).entries =
      m.entries.filter fun e => e.1 ∉ rem.map Prod.fst := by
  rw [← entries_foldl_erase, List.foldl_map]

/-- Deleting the keys of the entries a filter picks, in any order, leaves the entries it does not
pick. -/
theorem entries_foldl_erase_filter (m : SortedMap κ ν) (p : κ × ν → Bool) {rem : List (κ × ν)}
    (hrem : rem.Perm (m.entries.filter p)) :
    (rem.foldl (fun m e => m.erase e.1) m).entries = m.entries.filter fun e => !p e := by
  rw [entries_foldl_erase_pairs]
  apply List.filter_congr
  intro e he
  have hiff : e.1 ∈ rem.map Prod.fst ↔ p e = true := by
    rw [(hrem.map Prod.fst).mem_iff]
    constructor
    · intro hmem
      obtain ⟨r, hr, hkey⟩ := List.mem_map.mp hmem
      obtain ⟨hrm, hpr⟩ := List.mem_filter.mp hr
      rwa [m.eq_of_mem_entries hrm he hkey] at hpr
    · intro hp
      exact List.mem_map_of_mem (List.mem_filter.mpr ⟨he, hp⟩)
  by_cases hp : p e = true <;> simp [hiff, hp]

theorem filter_not_mem_keys_take (m : SortedMap κ ν) (k : Nat) :
    m.entries.filter (fun e => e.1 ∉ (m.entries.take k).map Prod.fst) = m.entries.drop k := by
  have hnodup := m.keys_nodup
  rw [keys, ← List.take_append_drop k m.entries, List.map_append, List.nodup_append] at hnodup
  conv_lhs => rw [← List.take_append_drop k m.entries]
  rw [List.filter_append, List.filter_eq_nil_iff.mpr fun e he => by
      simpa using List.mem_map_of_mem (f := Prod.fst) he,
    List.filter_eq_self.mpr fun e he => by
      simpa using fun hin => hnodup.2.2 _ hin _ (List.mem_map_of_mem he) rfl,
    List.nil_append]

theorem filter_not_mem_keys_drop (m : SortedMap κ ν) (k : Nat) :
    m.entries.filter (fun e => e.1 ∉ (m.entries.drop k).map Prod.fst) = m.entries.take k := by
  have hnodup := m.keys_nodup
  rw [keys, ← List.take_append_drop k m.entries, List.map_append, List.nodup_append] at hnodup
  conv_lhs => rw [← List.take_append_drop k m.entries]
  rw [List.filter_append, List.filter_eq_self.mpr fun e he => by
      simpa using fun hin => hnodup.2.2 _ (List.mem_map_of_mem he) _ hin rfl,
    List.filter_eq_nil_iff.mpr fun e he => by
      simpa using List.mem_map_of_mem (f := Prod.fst) he,
    List.append_nil]

end SortedMap
