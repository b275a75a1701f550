import AuroraChain.Trie.Trie
/-!
# The canonical form is unique

Two canonical tries that hold the same map are one trie, but for the flags of their nodes
(`Canon.shape_eq_of_lookup_eq`). The map decides what the root is. A full node holds keys that part
at their first nibble (`Parts`); a short node holds only keys that start with its segment, so it
holds no such pair. A leaf holds one key, a short node over a full node two at least. And of two
short nodes over full nodes, each segment is a prefix of the other, since the keys of each part
right after its segment (`segment_prefix`). Below the root the argument goes down child by child.

So a run of writes leaves a trie that only its map decides, whatever order the writes came in
(`trie_shape_of_same_map`).
-/

namespace AuroraChain.Trie

/-- The flag of a node with its flags blanked. -/
def blankFlag : NodeFlag := { hash := none, gen := 0, dirty := false }

/-- A node with every flag blanked: all of a node that its encoding reads. -/
def Node.shape : Node → Node
  | .full cs _ => .full (fun i => (cs i).shape) blankFlag
  | .short k c _ => .short k c.shape blankFlag
  | n => n

@[simp] theorem Node.shape_full (cs : Fin 17 → Node) (f : NodeFlag) :
    (Node.full cs f).shape = .full (fun i => (cs i).shape) blankFlag := by
  rw [Node.shape]

@[simp] theorem Node.shape_short (k : List UInt8) (c : Node) (f : NodeFlag) :
    (Node.short k c f).shape = .short k c.shape blankFlag := by
  rw [Node.shape]

@[simp] theorem Node.shape_nil : Node.nil.shape = .nil := rfl

@[simp] theorem Node.shape_value (v : List UInt8) : (Node.value v).shape = .value v := rfl

@[simp] theorem Node.shape_hash (h : List UInt8) : (Node.hash h).shape = .hash h := rfl

/-! ### What the map says of the root -/

/-- Two keys of a map that part at their first byte. -/
def Parts (M : List UInt8 → Option (List UInt8)) : Prop :=
  ∃ a b, M a ≠ none ∧ M b ≠ none ∧ a.head? ≠ b.head?

theorem SlotOk.exists_key {s : Fin 17} {c : Node} (h : SlotOk s c) (hne : c ≠ .nil)
    (hc : s ≠ 16 → Canon c → ∃ r, lookup c r ≠ none) : ∃ r, lookup c r ≠ none := by
  rcases h with h | h
  · exact absurd h hne
  · by_cases hs : s = 16
    · rw [if_pos hs] at h
      obtain ⟨v, rfl, -⟩ := h
      exact ⟨[], Option.some_ne_none v⟩
    · rw [if_neg hs] at h
      exact hc hs h

theorem Canon.exists_key {n : Node} (hn : Canon n) : ∃ k, lookup n k ≠ none := by
  induction n with
  | short k c f ih =>
      rcases hn with ⟨-, v, rfl, -⟩ | ⟨-, -, -, hc⟩
      · refine ⟨k, ?_⟩
        rw [lookup_short_eq, shiftMap_value, Function.update_self]
        exact Option.some_ne_none v
      · obtain ⟨x, hx⟩ := ih hc
        exact ⟨k ++ x, by rw [lookup_short_eq, shiftMap_append_apply]; exact hx⟩
  | full cs f ih =>
      obtain ⟨hslots, i, -, -, hi, -⟩ := (canon_full_iff cs f).mp hn
      obtain ⟨r, hr⟩ := (hslots i).exists_key hi (fun _ hc => ih i hc)
      exact ⟨nibbleOf i :: r, by rw [lookup_full_slot _ _ (slot_nibbleOf i)]; exact hr⟩
  | nil | hash _ | value _ => exact hn.elim

theorem Canon.parts_full {cs : Fin 17 → Node} {f : NodeFlag} (hn : Canon (.full cs f)) :
    Parts (lookup (.full cs f)) := by
  obtain ⟨hslots, i, j, hij, hi, hj⟩ := (canon_full_iff cs f).mp hn
  obtain ⟨r, hr⟩ := (hslots i).exists_key hi (fun _ hc => hc.exists_key)
  obtain ⟨r', hr'⟩ := (hslots j).exists_key hj (fun _ hc => hc.exists_key)
  refine ⟨nibbleOf i :: r, nibbleOf j :: r', ?_, ?_, fun h => hij ?_⟩
  · rwa [lookup_full_slot _ _ (slot_nibbleOf i)]
  · rwa [lookup_full_slot _ _ (slot_nibbleOf j)]
  · have hnib : nibbleOf i = nibbleOf j := Option.some.inj h
    exact Option.some.inj ((slot_nibbleOf i).symm.trans (hnib ▸ slot_nibbleOf j))

theorem prefix_of_lookup_short {k key : List UInt8} {c : Node} {f : NodeFlag}
    (h : lookup (.short k c f) key ≠ none) : k <+: key := by
  rw [lookup_short] at h
  by_contra hk
  exact h (if_neg hk)

theorem not_parts_short {k : List UInt8} (hk : k ≠ []) (c : Node) (f : NodeFlag) :
    ¬ Parts (lookup (.short k c f)) := by
  rintro ⟨a, b, ha, hb, hab⟩
  obtain ⟨x, k', rfl⟩ := List.exists_cons_of_ne_nil hk
  obtain ⟨t, rfl⟩ := prefix_of_lookup_short ha
  obtain ⟨t', rfl⟩ := prefix_of_lookup_short hb
  exact hab rfl

theorem Canon.short_key_ne_nil {k : List UInt8} {c : Node} {f : NodeFlag}
    (hn : Canon (.short k c f)) : k ≠ [] := by
  rcases hn with ⟨hk, -⟩ | ⟨-, hne, -⟩
  · exact hk.ne_nil
  · exact hne

theorem key_of_lookup_leaf {k v key : List UInt8} {f : NodeFlag}
    (h : lookup (.short k (.value v) f) key ≠ none) : key = k := by
  rw [lookup_short_eq, shiftMap_value] at h
  by_contra hk
  exact h (Function.update_of_ne hk _ _)

theorem prefix_of_parts {p k a b : List UInt8} (ha : p <+: k ++ a) (hb : p <+: k ++ b)
    (hab : a.head? ≠ b.head?) : p <+: k := by
  by_cases hle : p.length ≤ k.length
  · have hp := List.prefix_iff_eq_take.mp ha
    rw [List.take_append_of_le_length hle] at hp
    rw [hp]
    exact List.take_prefix _ _
  · have hab' := congrArg (fun l => l[k.length]?)
      ((List.prefix_iff_eq_take.mp ha).symm.trans (List.prefix_iff_eq_take.mp hb))
    simp only [List.getElem?_take, if_pos (Nat.lt_of_not_le hle),
      List.getElem?_append_right (Nat.le_refl _), Nat.sub_self] at hab'
    exact absurd (by rw [List.head?_eq_getElem?, List.head?_eq_getElem?]; exact hab') hab

theorem segment_prefix {k k' : List UInt8} {c c' : Node} {f f' : NodeFlag} (hfull : c.IsFull)
    (hc : Canon c) (heq : lookup (.short k c f) = lookup (.short k' c' f')) : k' <+: k := by
  cases c with
  | full cs g =>
      obtain ⟨a, b, ha, hb, hab⟩ := hc.parts_full
      have hkey : ∀ x, lookup (.full cs g) x ≠ none → k' <+: k ++ x := fun x hx =>
        prefix_of_lookup_short (by rw [← heq, lookup_short_eq, shiftMap_append_apply]; exact hx)
      exact prefix_of_parts (hkey a ha) (hkey b hb) hab
  | nil | short _ _ _ | hash _ | value _ => exact hfull.elim

theorem lookup_leaf_ne {k v k' : List UInt8} {f f' : NodeFlag} {c' : Node} (hfull : c'.IsFull)
    (hc' : Canon c') : lookup (.short k (.value v) f) ≠ lookup (.short k' c' f') := by
  intro heq
  cases c' with
  | full cs g =>
      obtain ⟨a, b, ha, hb, hab⟩ := hc'.parts_full
      have hkey : ∀ x, lookup (.full cs g) x ≠ none → k' ++ x = k := fun x hx =>
        key_of_lookup_leaf (by rw [heq, lookup_short_eq, shiftMap_append_apply]; exact hx)
      exact hab (congrArg List.head? (List.append_cancel_left ((hkey a ha).trans (hkey b hb).symm)))
  | nil | short _ _ _ | hash _ | value _ => exact hfull.elim

theorem shiftMap_injective (k : List UInt8) : Function.Injective (shiftMap k) := fun M M' h => by
  funext x
  have hx := congrFun h (k ++ x)
  rwa [shiftMap_append_apply, shiftMap_append_apply] at hx

/-! ### Uniqueness -/

/-- Two children that fit one slot and hold one map are one child, but for flags, once that is so
of canonical children. -/
theorem SlotOk.shape_eq {s : Fin 17} {c c' : Node} (h : SlotOk s c) (h' : SlotOk s c')
    (heq : lookup c = lookup c') (hcanon : s ≠ 16 → Canon c → Canon c' → c.shape = c'.shape) :
    c.shape = c'.shape := by
  by_cases hc : c = .nil
  · by_cases hc' : c' = .nil
    · rw [hc, hc']
    · obtain ⟨r, hr⟩ := h'.exists_key hc' (fun _ hc => hc.exists_key)
      rw [hc] at heq
      exact absurd (congrFun heq r).symm hr
  · by_cases hc' : c' = .nil
    · obtain ⟨r, hr⟩ := h.exists_key hc (fun _ hc => hc.exists_key)
      rw [hc'] at heq
      exact absurd (congrFun heq r) hr
    · rcases h with h | h
      · exact absurd h hc
      rcases h' with h' | h'
      · exact absurd h' hc'
      by_cases hs : s = 16
      · rw [if_pos hs] at h h'
        obtain ⟨v, rfl, -⟩ := h
        obtain ⟨v', rfl, -⟩ := h'
        have hv := congrFun heq []
        rw [lookup_value, lookup_value, if_pos rfl, if_pos rfl] at hv
        rw [Option.some.inj hv]
      · rw [if_neg hs] at h h'
        exact hcanon hs h h'

theorem shape_full_of_lookup_eq {cs cs' : Fin 17 → Node} {f f' : NodeFlag}
    (hn : Canon (.full cs f)) (hm : Canon (.full cs' f'))
    (heq : lookup (.full cs f) = lookup (.full cs' f'))
    (ih : ∀ i, Canon (cs i) → Canon (cs' i) → lookup (cs i) = lookup (cs' i) →
      (cs i).shape = (cs' i).shape) :
    (Node.full cs f).shape = (Node.full cs' f').shape := by
  have hchild : ∀ i, lookup (cs i) = lookup (cs' i) := fun i => by
    funext r
    rw [← lookup_full_slot cs f (slot_nibbleOf i) r, heq, lookup_full_slot cs' f' (slot_nibbleOf i) r]
  have hslots := ((canon_full_iff cs f).mp hn).1
  have hslots' := ((canon_full_iff cs' f').mp hm).1
  rw [Node.shape_full, Node.shape_full]
  congr 1
  funext i
  exact (hslots i).shape_eq (hslots' i) (hchild i) (fun _ hc hc' => ih i hc hc' (hchild i))

theorem shape_short_of_lookup_eq {k k' : List UInt8} {c c' : Node} {f f' : NodeFlag}
    (hn : Canon (.short k c f)) (hm : Canon (.short k' c' f'))
    (heq : lookup (.short k c f) = lookup (.short k' c' f'))
    (ih : Canon c → Canon c' → lookup c = lookup c' → c.shape = c'.shape) :
    (Node.short k c f).shape = (Node.short k' c' f').shape := by
  rw [Node.shape_short, Node.shape_short]
  rcases hn with ⟨-, v, rfl, -⟩ | ⟨-, -, hfull, hc⟩ <;>
    rcases hm with ⟨-, v', rfl, -⟩ | ⟨-, -, hfull', hc'⟩
  · have hk := congrFun heq k
    rw [lookup_short_eq, lookup_short_eq, shiftMap_value, shiftMap_value, Function.update_self] at hk
    by_cases hkk : k = k'
    · subst hkk
      rw [Function.update_self] at hk
      rw [Option.some.inj hk]
    · rw [Function.update_of_ne hkk] at hk
      exact absurd hk (Option.some_ne_none v)
  · exact absurd heq (lookup_leaf_ne hfull' hc')
  · exact absurd heq.symm (lookup_leaf_ne hfull hc)
  · have h1 := segment_prefix hfull hc heq
    have h2 := segment_prefix hfull' hc' heq.symm
    have hkk : k' = k := h1.eq_of_length (Nat.le_antisymm h1.length_le h2.length_le)
    subst hkk
    have hlookup : lookup c = lookup c' :=
      shiftMap_injective k' (by rw [← lookup_short_eq, ← lookup_short_eq]; exact heq)
    rw [ih hc hc' hlookup]

/-- Two canonical tries that hold one map are one trie, but for the flags of their nodes. -/
theorem Canon.shape_eq_of_lookup_eq {n : Node} (hn : Canon n) :
    ∀ {m : Node}, Canon m → lookup n = lookup m → n.shape = m.shape := by
  induction n with
  | full cs f ih =>
      intro m hm heq
      cases m with
      | full cs' f' => exact shape_full_of_lookup_eq hn hm heq (fun i hc hc' => ih i hc hc')
      | short k' c' f' => exact absurd (heq ▸ hn.parts_full) (not_parts_short hm.short_key_ne_nil c' f')
      | nil | hash _ | value _ => exact hm.elim
  | short k c f ih =>
      intro m hm heq
      cases m with
      | full cs' f' => exact absurd (heq ▸ hm.parts_full) (not_parts_short hn.short_key_ne_nil c f)
      | short k' c' f' => exact shape_short_of_lookup_eq hn hm heq (fun hc hc' => ih hc hc')
      | nil | hash _ | value _ => exact hm.elim
  | nil | hash _ | value _ => exact hn.elim

theorem RootCanon.shape_eq_of_lookup_eq {n m : Node} (hn : RootCanon n) (hm : RootCanon m)
    (heq : lookup n = lookup m) : n.shape = m.shape := by
  rcases hn with rfl | hn <;> rcases hm with rfl | hm
  · rfl
  · obtain ⟨k, hk⟩ := hm.exists_key
    exact absurd (congrFun heq k).symm hk
  · obtain ⟨k, hk⟩ := hn.exists_key
    exact absurd (congrFun heq k) hk
  · exact hn.shape_eq_of_lookup_eq hm heq

end AuroraChain.Trie
