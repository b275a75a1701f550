import AuroraChain.Trie.Node
/-!
# What a trie holds

`lookup` reads the value a node without hash nodes holds under a key, as a finite map from hex
keys to values. `Canon` is the form `insert` and `delete` keep a trie in: a short node's key is
not empty and leads to a value (when it ends with the terminator) or to a full node, and a full
node holds two children or more, its value slot a value, its other slots no value. The root is
nil or in that form (`RootCanon`).
-/

namespace AuroraChain.Trie

/-- The value a node without hash nodes holds under a key read from it. -/
def lookup : Node → List UInt8 → Option (List UInt8)
  | .nil, _ => none
  | .value v, key => if key = [] then some v else none
  | .short k c _, key => if k <+: key then lookup c (key.drop k.length) else none
  | .full _ _, [] => none
  | .full cs _, i :: rest =>
      match slot i with
      | some s => lookup (cs s) rest
      | none => none
  | .hash _, _ => none

/-- A full node. -/
def Node.IsFull : Node → Prop
  | .full _ _ => True
  | _ => False

/-- The canonical form below the root. -/
def Canon : Node → Prop
  | .short k c _ =>
      (HexKey k ∧ ∃ v, c = .value v ∧ v ≠ []) ∨ (Nibbles k ∧ k ≠ [] ∧ c.IsFull ∧ Canon c)
  | .full cs _ =>
      (∀ s, cs s = .nil ∨ if s = 16 then ∃ v, cs s = .value v ∧ v ≠ [] else Canon (cs s)) ∧
      ∃ i j, i ≠ j ∧ cs i ≠ .nil ∧ cs j ≠ .nil
  | _ => False

/-- What slot `s` of a canonical full node holds: nothing, a value in the value slot, a canonical
node in the others. -/
def SlotOk (s : Fin 17) (c : Node) : Prop :=
  c = .nil ∨ if s = 16 then ∃ v, c = .value v ∧ v ≠ [] else Canon c

/-- The canonical form of a root: nil, or canonical. -/
def RootCanon (n : Node) : Prop := n = .nil ∨ Canon n

/-! ### Reading -/

theorem lookup_value (v key : List UInt8) :
    lookup (.value v) key = if key = [] then some v else none := rfl

theorem lookup_short (k : List UInt8) (c : Node) (f : NodeFlag) (key : List UInt8) :
    lookup (.short k c f) key = if k <+: key then lookup c (key.drop k.length) else none := rfl

theorem lookup_full_slot (cs : Fin 17 → Node) (f : NodeFlag) {i : UInt8} {s : Fin 17}
    (h : slot i = some s) (rest : List UInt8) : lookup (.full cs f) (i :: rest) = lookup (cs s) rest := by
  rw [lookup, h]

theorem lookup_full_of_slot_none (cs : Fin 17 → Node) (f : NodeFlag) {i : UInt8}
    (h : slot i = none) (rest : List UInt8) : lookup (.full cs f) (i :: rest) = none := by
  rw [lookup, h]

@[simp] theorem lookup_nil (key : List UInt8) : lookup .nil key = none := rfl

theorem lookup_full_nil (cs : Fin 17 → Node) (f : NodeFlag) : lookup (.full cs f) [] = none := rfl

theorem slot_eq_some {i : UInt8} {s : Fin 17} : slot i = some s ↔ i.toNat = s.val := by
  unfold slot
  split
  · rename_i h
    rw [Option.some.injEq, Fin.ext_iff]
  · rename_i h
    constructor
    · intro h'
      cases h'
    · intro h'
      exact absurd (h' ▸ s.isLt) h

theorem slot_inj {i j : UInt8} {s : Fin 17} (hi : slot i = some s) (hj : slot j = some s) :
    i = j := by
  rw [slot_eq_some] at hi hj
  exact UInt8.toNat_inj.mp (hi.trans hj.symm)

theorem slot_of_lt {i : UInt8} (h : i ≤ 16) : ∃ s, slot i = some s := by
  have h' : i.toNat < 17 := by
    rw [UInt8.le_iff_toNat_le] at h
    exact Nat.lt_succ_of_le h
  exact ⟨⟨i.toNat, h'⟩, by rw [slot, dif_pos h']⟩

theorem slot_ne_sixteen {i : UInt8} {s : Fin 17} (hs : slot i = some s) (h : i < 16) : s ≠ 16 := by
  rintro rfl
  rw [slot_eq_some] at hs
  rw [UInt8.lt_iff_toNat_lt] at h
  exact absurd hs (Nat.ne_of_lt h)

theorem slot_sixteen : slot 16 = some 16 := rfl

/-! ### Maps below a prefix -/

/-- A map read below the prefix `p`: what `M` holds under `k` is held under `p ++ k`. -/
def shiftMap (p : List UInt8) (M : List UInt8 → Option (List UInt8)) :
    List UInt8 → Option (List UInt8) :=
  fun key => if p <+: key then M (key.drop p.length) else none

theorem lookup_short_eq (k : List UInt8) (c : Node) (f : NodeFlag) :
    lookup (.short k c f) = shiftMap k (lookup c) := rfl

theorem shiftMap_nil (M : List UInt8 → Option (List UInt8)) : shiftMap [] M = M := by
  funext key
  rw [shiftMap, if_pos List.nil_prefix, List.length_nil, List.drop_zero]

theorem shiftMap_append_apply (p : List UInt8) (M : List UInt8 → Option (List UInt8))
    (k : List UInt8) : shiftMap p M (p ++ k) = M k := by
  rw [shiftMap, if_pos (List.prefix_append p k), List.drop_left]

theorem shiftMap_eq_none {p key : List UInt8} (M : List UInt8 → Option (List UInt8))
    (h : ¬ p <+: key) : shiftMap p M key = none := by
  rw [shiftMap, if_neg h]

theorem shiftMap_append (p q : List UInt8) (M : List UInt8 → Option (List UInt8)) :
    shiftMap (p ++ q) M = shiftMap p (shiftMap q M) := by
  funext key
  by_cases hp : p <+: key
  · obtain ⟨r, rfl⟩ := hp
    rw [shiftMap_append_apply]
    by_cases hq : q <+: r
    · obtain ⟨t, rfl⟩ := hq
      rw [← List.append_assoc, shiftMap_append_apply, shiftMap_append_apply]
    · rw [shiftMap_eq_none _ hq, shiftMap_eq_none]
      rintro ⟨t, ht⟩
      exact hq ⟨t, List.append_cancel_left (by rw [← ht, List.append_assoc])⟩
  · rw [shiftMap_eq_none _ hp, shiftMap_eq_none]
    exact fun h => hp ((List.prefix_append p q).trans h)

theorem lookup_ite_short (k : List UInt8) (c : Node) (f : NodeFlag) :
    lookup (if k = [] then c else .short k c f) = shiftMap k (lookup c) := by
  split
  · rename_i hk
    rw [hk, shiftMap_nil]
  · rfl

theorem shiftMap_cons_cons (a x : UInt8) (p r : List UInt8) (M : List UInt8 → Option (List UInt8)) :
    shiftMap (a :: p) M (x :: r) = if x = a then shiftMap p M r else none := by
  unfold shiftMap
  by_cases hx : x = a
  · subst hx
    rw [if_pos rfl]
    simp only [List.cons_prefix_cons, true_and, List.length_cons, List.drop_succ_cons]
  · rw [if_neg hx, if_neg]
    rw [List.cons_prefix_cons]
    exact fun h => hx h.1.symm

theorem shiftMap_update (p : List UInt8) (M : List UInt8 → Option (List UInt8)) (k : List UInt8)
    (x : Option (List UInt8)) :
    shiftMap p (Function.update M k x) = Function.update (shiftMap p M) (p ++ k) x := by
  funext key
  by_cases hp : p <+: key
  · obtain ⟨r, rfl⟩ := hp
    rw [shiftMap_append_apply]
    by_cases hr : r = k
    · subst hr
      rw [Function.update_self, Function.update_self]
    · rw [Function.update_of_ne hr, Function.update_of_ne (fun h => hr (List.append_cancel_left h)),
        shiftMap_append_apply]
  · rw [shiftMap_eq_none _ hp, Function.update_of_ne (fun h => hp ⟨k, h.symm⟩),
      shiftMap_eq_none _ hp]

/-- Setting a key in one child of a full node. -/
theorem lookup_full_update (cs : Fin 17 → Node) (f f' : NodeFlag) {i : UInt8} {s : Fin 17}
    (hs : slot i = some s) (rest : List UInt8) (nn : Node) (x : Option (List UInt8))
    (hnn : lookup nn = Function.update (lookup (cs s)) rest x) :
    lookup (.full (Function.update cs s nn) f') =
      Function.update (lookup (.full cs f)) (i :: rest) x := by
  funext key
  cases key with
  | nil => rw [lookup_full_nil, Function.update_of_ne (List.cons_ne_nil i rest).symm, lookup_full_nil]
  | cons j r =>
      cases hj : slot j with
      | none =>
          have hne : j :: r ≠ i :: rest := fun h => by
            rw [List.cons.injEq] at h
            rw [h.1, hs] at hj
            cases hj
          rw [lookup_full_of_slot_none _ _ hj, Function.update_of_ne hne, lookup_full_of_slot_none _ _ hj]
      | some t =>
          rw [lookup_full_slot _ _ hj]
          by_cases hts : t = s
          · subst hts
            rw [slot_inj hj hs, Function.update_self, hnn]
            by_cases hr : r = rest
            · subst hr
              rw [Function.update_self, Function.update_self]
            · rw [Function.update_of_ne hr, Function.update_of_ne (fun h => hr (List.cons.inj h).2),
                lookup_full_slot _ _ hs]
          · have hne : j :: r ≠ i :: rest := fun h => by
              rw [List.cons.injEq] at h
              rw [h.1, hs] at hj
              exact hts (Option.some.inj hj).symm
            rw [Function.update_of_ne hts, Function.update_of_ne hne, lookup_full_slot _ _ hj]

/-! ### The canonical form -/

theorem canon_full_iff (cs : Fin 17 → Node) (f : NodeFlag) :
    Canon (.full cs f) ↔ (∀ s, SlotOk s (cs s)) ∧ ∃ i j, i ≠ j ∧ cs i ≠ .nil ∧ cs j ≠ .nil :=
  Iff.rfl

theorem Canon.ne_nil {n : Node} (h : Canon n) : n ≠ .nil := by
  rintro rfl
  exact h

theorem Canon.short_val_ne_nil {k : List UInt8} {c : Node} {f : NodeFlag} (h : Canon (.short k c f)) :
    c ≠ .nil := by
  rcases h with ⟨-, v, rfl, -⟩ | ⟨-, -, -, hc⟩
  · exact Node.noConfusion
  · exact hc.ne_nil

/-- The nodes a canonical full node is rebuilt with keep it canonical, once its new child fits
its slot and holds something. -/
theorem canon_full_update {cs : Fin 17 → Node} {f f' : NodeFlag} {s : Fin 17} {nn : Node}
    (hn : Canon (.full cs f)) (hslot : SlotOk s nn) (hne : nn ≠ .nil) :
    Canon (.full (Function.update cs s nn) f') := by
  obtain ⟨hslots, i, j, hij, hi, hj⟩ := (canon_full_iff cs f).mp hn
  have keep : ∀ t, cs t ≠ .nil → Function.update cs s nn t ≠ .nil := by
    intro t ht
    by_cases hts : t = s
    · rw [hts, Function.update_self]
      exact hne
    · rwa [Function.update_of_ne hts]
  refine (canon_full_iff _ f').mpr ⟨fun t => ?_, i, j, hij, keep i hi, keep j hj⟩
  by_cases hts : t = s
  · rw [hts, Function.update_self]
    exact hslot
  · rw [Function.update_of_ne hts]
    exact hslots t

end AuroraChain.Trie
