import AuroraChain.Trie.Insert
/-!
# Deleting from a trie

`delete` of a hex key from a canonical trie removes that key from the map the trie holds and
leaves every other key as it was (`Deleted.lookup_eq`); it returns the trie itself when it
reports no change, and what it returns is canonical again or nil.

What keeps the form is the reduction on the way up. A full node left with one child becomes a
short node over it, and takes the child's key segment in when the child is a short node
(`lookup_full_single`, `canon_merge`). A short node over a short node is merged. A full node
never runs out of children: it held two, and the walk changed one (`childPos_ne_none`).
-/

namespace AuroraChain.Trie

/-! ### The loop over the children -/

theorem Node.isNil_eq_true {c : Node} : c.isNil = true ↔ c = .nil := by
  cases c <;> simp [Node.isNil]

/-- What `pos` says of the children the loop has looked at. -/
def ChildPos.Holds (children : Fin 17 → Node) (seen : List (Fin 17)) : ChildPos → Prop
  | .none => ∀ i ∈ seen, children i = .nil
  | .one p => p ∈ seen ∧ children p ≠ .nil ∧ ∀ i ∈ seen, i ≠ p → children i = .nil
  | .many => ∃ i j, i ≠ j ∧ children i ≠ .nil ∧ children j ≠ .nil

theorem ChildPos.Holds.step {children : Fin 17 → Node} {seen : List (Fin 17)} {pos : ChildPos}
    (h : pos.Holds children seen) {i : Fin 17} (hi : i ∉ seen) :
    (pos.step children i).Holds children (seen ++ [i]) := by
  have hmem : ∀ k, k ∈ seen ++ [i] ↔ k ∈ seen ∨ k = i := fun k => by
    rw [List.mem_append, List.mem_singleton]
  cases pos with
  | none =>
      by_cases hc : children i = .nil
      · rw [ChildPos.step, if_pos (Node.isNil_eq_true.mpr hc)]
        intro k hk
        rcases (hmem k).mp hk with hk | rfl
        · exact h k hk
        · exact hc
      · rw [ChildPos.step, if_neg (mt Node.isNil_eq_true.mp hc)]
        refine ⟨(hmem i).mpr (.inr rfl), hc, fun k hk hki => ?_⟩
        rcases (hmem k).mp hk with hk | rfl
        · exact h k hk
        · exact absurd rfl hki
  | one p =>
      obtain ⟨hp, hcp, hothers⟩ := h
      by_cases hc : children i = .nil
      · rw [ChildPos.step, if_pos (Node.isNil_eq_true.mpr hc)]
        refine ⟨(hmem p).mpr (.inl hp), hcp, fun k hk hkp => ?_⟩
        rcases (hmem k).mp hk with hk | rfl
        · exact hothers k hk hkp
        · exact hc
      · -- a second child: the loop breaks out
        rw [ChildPos.step, if_neg (mt Node.isNil_eq_true.mp hc)]
        exact ⟨p, i, fun hpi => hi (hpi ▸ hp), hcp, hc⟩
  | many => exact h

/-- The whole loop, over children it looks at once each. -/
theorem ChildPos.Holds.foldl {children : Fin 17 → Node} :
    ∀ (l seen : List (Fin 17)) (pos : ChildPos), pos.Holds children seen → (seen ++ l).Nodup →
      (l.foldl (ChildPos.step children) pos).Holds children (seen ++ l)
  | [], seen, pos, h, _ => by rwa [List.append_nil]
  | i :: l, seen, pos, h, hnd => by
      have hi : i ∉ seen := fun hi => (List.nodup_append.mp hnd).2.2 i hi i List.mem_cons_self rfl
      rw [List.foldl_cons, List.append_cons]
      rw [List.append_cons] at hnd
      exact ChildPos.Holds.foldl l (seen ++ [i]) _ (h.step hi) hnd

theorem childPos_holds (children : Fin 17 → Node) :
    (childPos children).Holds children (List.finRange 17) :=
  ChildPos.Holds.foldl (List.finRange 17) [] .none (fun _ h => absurd h List.not_mem_nil)
    (List.nodup_finRange 17)

theorem childPos_one {children : Fin 17 → Node} {p : Fin 17} (h : childPos children = .one p) :
    children p ≠ .nil ∧ ∀ i, i ≠ p → children i = .nil := by
  have hh := childPos_holds children
  rw [h] at hh
  exact ⟨hh.2.1, fun i => hh.2.2 i (List.mem_finRange i)⟩

theorem childPos_many {children : Fin 17 → Node} (h : childPos children = .many) :
    ∃ i j, i ≠ j ∧ children i ≠ .nil ∧ children j ≠ .nil := by
  have hh := childPos_holds children
  rwa [h] at hh

theorem childPos_ne_none {children : Fin 17 → Node} {i : Fin 17} (hi : children i ≠ .nil) :
    childPos children ≠ .none := by
  intro h
  have hh := childPos_holds children
  rw [h] at hh
  exact hi (hh i (List.mem_finRange i))

/-! ### Reducing a full node -/

theorem slot_nibbleOf (p : Fin 17) : slot (nibbleOf p) = some p := by
  rw [slot_eq_some, nibbleOf, UInt8.toNat_ofNat']
  have := p.isLt
  omega

theorem nibbleOf_lt {p : Fin 17} (hp : p ≠ 16) : nibbleOf p < 16 := by
  rw [UInt8.lt_iff_toNat_lt, nibbleOf, UInt8.toNat_ofNat']
  have hlt := p.isLt
  have hne : p.val ≠ 16 := fun h => hp (Fin.ext h)
  show p.val % 256 < 16
  omega

theorem lookup_full_single {cs : Fin 17 → Node} {p : Fin 17} (hp : ∀ i, i ≠ p → cs i = .nil)
    (f : NodeFlag) : lookup (.full cs f) = shiftMap [nibbleOf p] (lookup (cs p)) := by
  funext key
  cases key with
  | nil =>
      rw [lookup_full_nil, shiftMap_eq_none]
      exact fun h => List.cons_ne_nil _ _ (List.prefix_nil.mp h)
  | cons x r =>
      rw [shiftMap_cons_cons, shiftMap_nil]
      cases hx : slot x with
      | none =>
          have hne : x ≠ nibbleOf p := by
            rintro rfl
            rw [slot_nibbleOf] at hx
            cases hx
          rw [lookup_full_of_slot_none _ _ hx, if_neg hne]
      | some t =>
          rw [lookup_full_slot _ _ hx]
          by_cases htp : t = p
          · subst htp
            rw [if_pos (slot_inj hx (slot_nibbleOf t))]
          · have hne : x ≠ nibbleOf p := by
              rintro rfl
              rw [slot_nibbleOf] at hx
              exact htp (Option.some.inj hx).symm
            rw [hp t htp, lookup_nil, if_neg hne]

theorem canon_merge {nkey ckey : List UInt8} {cval : Node} {g : NodeFlag} (hk : Nibbles nkey)
    (hc : Canon (.short ckey cval g)) (f : NodeFlag) : Canon (.short (nkey ++ ckey) cval f) := by
  rcases hc with ⟨⟨body, hbody, rfl⟩, hv⟩ | ⟨hck, hne, hfull, hcval⟩
  · refine .inl ⟨⟨nkey ++ body, nibbles_append.mpr ⟨hk, hbody⟩, ?_⟩, hv⟩
    rw [List.append_assoc]
  · exact .inr ⟨nibbles_append.mpr ⟨hk, hck⟩, fun h => hne (List.append_eq_nil_iff.mp h).2, hfull, hcval⟩

theorem resolveNode_of_canon (resolve : Resolver) {c : Node} (hc : Canon c) (pfx : List UInt8) :
    resolveNode resolve c pfx = .ok c := by
  cases c with
  | hash _ => exact hc.elim
  | nil | full _ _ | short _ _ _ | value _ => rfl

/-! ### The equations of the walk -/

section Walk

variable (resolve : Resolver) (flag : NodeFlag)

/-- The node `delete` puts over a changed child below a short node's key segment: a short child is
merged in. -/
def shortOver (nkey : List UInt8) (child : Node) (flag : NodeFlag) : Node :=
  match child with
  | .short ckey cval _ => .short (nkey ++ ckey) cval flag
  | child => .short nkey child flag

/-- The tail of `delete` at a full node whose child changed: a node left with one child becomes a
short node over it, under that child's nibble. -/
def collapseFull (pfx : List UInt8) (children : Fin 17 → Node) : Except TrieError (Bool × Node) :=
  match childPos children with
  | .one p =>
      if p.val ≠ 16 then
        (resolveNode resolve (children p) pfx).map fun cnode =>
          match cnode with
          | .short ckey cval _ => (true, .short (nibbleOf p :: ckey) cval flag)
          | _ => (true, .short [nibbleOf p] (children p) flag)
      else .ok (true, .short [nibbleOf p] (children p) flag)
  | _ => .ok (true, .full children flag)

theorem delete_nil_node (fuel : Nat) (pfx key : List UInt8) :
    delete resolve flag (fuel + 1) .nil pfx key = .ok (false, .nil) := by
  cases key <;> rfl

theorem delete_value_node (fuel : Nat) (w pfx key : List UInt8) :
    delete resolve flag (fuel + 1) (.value w) pfx key = .ok (true, .nil) := by
  cases key <;> rfl

theorem delete_short_of_lt {fuel : Nat} {nkey : List UInt8} {nval : Node} {f : NodeFlag}
    {pfx key : List UInt8} (hm : prefixLen key nkey < nkey.length) :
    delete resolve flag (fuel + 1) (.short nkey nval f) pfx key = .ok (false, .short nkey nval f) := by
  rw [delete]
  exact if_pos hm

theorem delete_short_self (fuel : Nat) (key : List UInt8) (nval : Node) (f : NodeFlag)
    (pfx : List UInt8) : delete resolve flag (fuel + 1) (.short key nval f) pfx key = .ok (true, .nil) := by
  rw [delete]
  dsimp only
  rw [prefixLen_self, if_neg (Nat.lt_irrefl _), if_pos rfl]

theorem delete_short_of_prefix {fuel : Nat} {nkey rest : List UInt8} {nval : Node} {f : NodeFlag}
    {pfx : List UInt8} (hrest : rest ≠ []) {r : Bool × Node}
    (h : delete resolve flag fuel nval (pfx ++ nkey) rest = .ok r) :
    delete resolve flag (fuel + 1) (.short nkey nval f) pfx (nkey ++ rest) =
      .ok (if !r.1 then (false, .short nkey nval f) else (true, shortOver nkey r.2 flag)) := by
  have hlen : prefixLen (nkey ++ rest) nkey = nkey.length :=
    (prefixLen_eq_length_iff _ _).mpr (List.prefix_append nkey rest)
  have hne : nkey.length ≠ (nkey ++ rest).length := by
    have := List.length_pos_iff.mpr hrest
    rw [List.length_append]
    omega
  rw [delete]
  simp only [hlen, Nat.lt_irrefl, if_false, if_neg hne, List.take_left, List.drop_left, h]
  obtain ⟨dirty, child⟩ := r
  -- the code builds the pair in each arm of the match on the new child
  cases dirty
  · rfl
  · cases child <;> rfl

theorem delete_full_of_slot {fuel : Nat} {cs : Fin 17 → Node} {f : NodeFlag} {pfx : List UInt8}
    {i : UInt8} {s : Fin 17} (hs : slot i = some s) {rest : List UInt8} {r : Bool × Node}
    (h : delete resolve flag fuel (cs s) (pfx ++ [i]) rest = .ok r) :
    delete resolve flag (fuel + 1) (.full cs f) pfx (i :: rest) =
      if !r.1 then .ok (false, .full cs f)
      else collapseFull resolve flag pfx (Function.update cs s r.2) := by
  rw [delete, hs]
  simp only [h]
  rfl

end Walk

/-! ### What the walk leaves -/

theorem lookup_shortOver (nkey : List UInt8) (c : Node) (f : NodeFlag) :
    lookup (shortOver nkey c f) = shiftMap nkey (lookup c) := by
  cases c with
  | short ckey cval g => exact (lookup_short_eq _ _ _).trans (shiftMap_append nkey ckey _)
  | nil | full _ _ | hash _ | value _ => rfl

theorem canon_shortOver {nkey : List UInt8} (hk : Nibbles nkey) (hne : nkey ≠ []) {c : Node}
    (hc : Canon c) (f : NodeFlag) : Canon (shortOver nkey c f) := by
  cases c with
  | short ckey cval g => exact canon_merge hk hc f
  | full cs g => exact .inr ⟨hk, hne, trivial, hc⟩
  | nil | hash _ | value _ => exact hc.elim

theorem SlotOk.sixteen {c : Node} (h : SlotOk 16 c) : c = .nil ∨ ∃ w, c = .value w := by
  rcases h with h | h
  · exact .inl h
  · rw [if_pos rfl] at h
    obtain ⟨w, hw, -⟩ := h
    exact .inr ⟨w, hw⟩

theorem SlotOk.rootCanon {s : Fin 17} {c : Node} (h : SlotOk s c) (hs : s ≠ 16) : RootCanon c := by
  rcases h with h | h
  · exact .inl h
  · rw [if_neg hs] at h
    exact .inr h

theorem slotOk_update {cs : Fin 17 → Node} (hslots : ∀ t, SlotOk t (cs t)) {s : Fin 17} {nn : Node}
    (hslot : SlotOk s nn) (t : Fin 17) : SlotOk t (Function.update cs s nn t) := by
  by_cases hts : t = s
  · rw [hts, Function.update_self]
    exact hslot
  · rw [Function.update_of_ne hts]
    exact hslots t

/-- The reduced node holds what the full node holds, and is canonical, once every slot fits and
one child is left. -/
theorem collapseFull_spec (resolve : Resolver) (flag : NodeFlag) {children : Fin 17 → Node}
    (hslots : ∀ t, SlotOk t (children t)) {t : Fin 17} (ht : children t ≠ .nil) (pfx : List UInt8) :
    ∃ m, collapseFull resolve flag pfx children = .ok (true, m) ∧
      lookup m = lookup (.full children flag) ∧ Canon m := by
  cases hp : childPos children with
  | none => exact absurd hp (childPos_ne_none ht)
  | many =>
      refine ⟨.full children flag, ?_, rfl, (canon_full_iff _ _).mpr ⟨hslots, childPos_many hp⟩⟩
      unfold collapseFull
      rw [hp]
  | one p =>
      obtain ⟨hpne, hothers⟩ := childPos_one hp
      have hsingle := lookup_full_single hothers flag
      by_cases h16 : p = 16
      · -- a value left alone goes under the terminator
        subst h16
        obtain ⟨v, hv⟩ := (hslots 16).sixteen.resolve_left hpne
        have hvne : v ≠ [] := by
          rcases hslots 16 with h | ⟨w, hw, hwne⟩
          · exact absurd h hpne
          · rw [hv, Node.value.injEq] at hw
            rwa [hw]
        refine ⟨.short [nibbleOf 16] (children 16) flag, ?_, ?_, ?_⟩
        · unfold collapseFull
          rw [hp]
          rfl
        · rw [lookup_short_eq, hsingle]
        · rw [hv]
          exact .inl ⟨⟨[], fun _ h => absurd h List.not_mem_nil, rfl⟩, v, rfl, hvne⟩
      · have hc : Canon (children p) := by
          rcases hslots p with h | h
          · exact absurd h hpne
          · rwa [if_neg h16] at h
        have hnib : Nibbles [nibbleOf p] := by
          intro x hx
          rw [List.mem_singleton.mp hx]
          exact nibbleOf_lt h16
        refine ⟨shortOver [nibbleOf p] (children p) flag, ?_, ?_, canon_shortOver hnib
          (List.cons_ne_nil _ _) hc flag⟩
        · have hp16 : p.val ≠ 16 := fun h => h16 (Fin.ext h)
          unfold collapseFull
          rw [hp]
          dsimp only
          rw [if_pos hp16, resolveNode_of_canon resolve hc]
          generalize children p = c
          cases c <;> rfl
        · rw [lookup_shortOver, hsingle]

/-! ### The spec -/

/-- What deleting `key` from `n` leaves: a node that holds `n`'s map without `key`, `n` itself
when the walk reports no change, canonical or nil, and never nil where `n` was a full node. -/
structure Deleted (n : Node) (key : List UInt8) (r : Bool × Node) : Prop where
  lookup_eq : lookup r.2 = Function.update (lookup n) key none
  clean : r.1 = false → r.2 = n
  canon : RootCanon r.2
  full : n.IsFull → Canon r.2

theorem deleted_of_lookup_none {n : Node} (hn : RootCanon n) {key : List UInt8}
    (h : lookup n key = none) : Deleted n key (false, n) where
  lookup_eq := (Function.update_eq_self_iff.mpr h.symm).symm
  clean := fun _ => rfl
  canon := hn
  full := fun hf => hn.resolve_left fun h0 => by
    rw [h0] at hf
    exact hf

theorem deleted_leaf {key v : List UInt8} {f : NodeFlag} :
    Deleted (.short key (.value v) f) key (true, .nil) where
  lookup_eq := by
    rw [lookup_short_eq, shiftMap_value, Function.update_idem, lookup_nil_eq]
    exact (Function.update_eq_self key _).symm
  clean := nofun
  canon := .inl rfl
  full := nofun

/-- A short node over a full node, rebuilt over what deleting from the full node left, or left as
it was. -/
theorem deleted_short (flag : NodeFlag) {nkey rest : List UInt8} {c : Node} {f : NodeFlag}
    (hn : Canon (.short nkey c f)) (hk : Nibbles nkey) (hne : nkey ≠ []) (hfull : c.IsFull)
    {r : Bool × Node} (hd : Deleted c rest r) :
    Deleted (.short nkey c f) (nkey ++ rest)
      (if !r.1 then (false, .short nkey c f) else (true, shortOver nkey r.2 flag)) := by
  obtain ⟨dirty, nn⟩ := r
  cases dirty with
  | false =>
      show Deleted _ _ (false, .short nkey c f)
      have hnn : nn = c := hd.clean rfl
      subst hnn
      refine deleted_of_lookup_none (.inr hn) ?_
      rw [lookup_short_eq, shiftMap_append_apply]
      simpa using congrFun hd.lookup_eq rest
  | true =>
      show Deleted _ _ (true, shortOver nkey nn flag)
      have hcanon := canon_shortOver hk hne (hd.full hfull) flag
      refine ⟨?_, nofun, .inr hcanon, fun _ => hcanon⟩
      rw [lookup_shortOver, hd.lookup_eq, lookup_short_eq, shiftMap_update]

/-- A full node after the walk below slot `s`: left as it was, or rebuilt and reduced. -/
theorem deleted_full (resolve : Resolver) (flag : NodeFlag) {cs : Fin 17 → Node} {f : NodeFlag}
    {i : UInt8} {s : Fin 17} (hs : slot i = some s) (hn : Canon (.full cs f)) (pfx : List UInt8)
    {rest : List UInt8} {r : Bool × Node}
    (hlookup : lookup r.2 = Function.update (lookup (cs s)) rest none)
    (hclean : r.1 = false → r.2 = cs s) (hslot : SlotOk s r.2) :
    ∃ r', (if !r.1 then .ok (false, .full cs f)
        else collapseFull resolve flag pfx (Function.update cs s r.2)) = .ok r' ∧
      Deleted (.full cs f) (i :: rest) r' := by
  obtain ⟨dirty, nn⟩ := r
  cases dirty with
  | false =>
      have hnn : nn = cs s := hclean rfl
      subst hnn
      refine ⟨_, rfl, deleted_of_lookup_none (.inr hn) ?_⟩
      rw [lookup_full_slot _ _ hs]
      simpa using congrFun hlookup rest
  | true =>
      obtain ⟨hslots, a, b, hab, ha, hb⟩ := (canon_full_iff cs f).mp hn
      obtain ⟨t, ht⟩ : ∃ t, Function.update cs s nn t ≠ .nil := by
        by_cases has : a = s
        · refine ⟨b, ?_⟩
          rw [Function.update_of_ne (fun h => hab (has.trans h.symm))]
          exact hb
        · exact ⟨a, by rw [Function.update_of_ne has]; exact ha⟩
      obtain ⟨m, hm, hlm, hcm⟩ :=
        collapseFull_spec resolve flag (slotOk_update hslots hslot) ht pfx
      refine ⟨(true, m), hm, ⟨?_, nofun, .inr hcm, fun _ => hcm⟩⟩
      rw [hlm]
      exact lookup_full_update cs f flag hs rest nn none hlookup

/-- At the end of a key the walk empties the value slot. -/
theorem delete_end (resolve : Resolver) (flag : NodeFlag) {c : Node}
    (hc : c = .nil ∨ ∃ w, c = .value w) (fuel : Nat) (pfx : List UInt8) :
    ∃ r, delete resolve flag (fuel + 1) c pfx [] = .ok r ∧
      lookup r.2 = Function.update (lookup c) [] none ∧ (r.1 = false → r.2 = c) ∧ r.2 = .nil := by
  rcases hc with rfl | ⟨w, rfl⟩
  · exact ⟨_, delete_nil_node resolve flag fuel pfx [], (Function.update_eq_self [] _).symm,
      fun _ => rfl, rfl⟩
  · refine ⟨_, delete_value_node resolve flag fuel w pfx [], ?_, nofun, rfl⟩
    funext key
    by_cases hk : key = []
    · rw [hk, Function.update_self]
      rfl
    · rw [Function.update_of_ne hk, lookup_value, if_neg hk]
      rfl

/-- `delete` with `fuel` removes every hex key shorter than the fuel from every canonical trie. -/
def DeletesWith (resolve : Resolver) (flag : NodeFlag) (fuel : Nat) : Prop :=
  ∀ n pfx key, RootCanon n → HexKey key → key.length < fuel →
    ∃ r, delete resolve flag fuel n pfx key = .ok r ∧ Deleted n key r

section Induction

variable (resolve : Resolver) (flag : NodeFlag)

theorem deletesWith_short {fuel : Nat} (ih : DeletesWith resolve flag fuel) {nkey : List UInt8}
    {nval : Node} {f : NodeFlag} (hn : Canon (.short nkey nval f)) (pfx : List UInt8)
    {key : List UInt8} (hkey : HexKey key) (hlen : key.length < fuel + 1) :
    ∃ r, delete resolve flag (fuel + 1) (.short nkey nval f) pfx key = .ok r ∧
      Deleted (.short nkey nval f) key r := by
  by_cases hm : prefixLen key nkey < nkey.length
  · -- the key leaves the segment: the trie holds nothing under it
    refine ⟨_, delete_short_of_lt resolve flag hm, deleted_of_lookup_none (.inr hn) ?_⟩
    rw [lookup_short, if_neg]
    intro hpre
    rw [(prefixLen_eq_length_iff key nkey).mpr hpre] at hm
    exact Nat.lt_irrefl _ hm
  · obtain ⟨rest, rfl⟩ := (prefixLen_eq_length_iff key nkey).mp
      (Nat.le_antisymm (prefixLen_le_right _ _) (Nat.not_lt.mp hm))
    rcases id hn with ⟨hk, w, rfl, -⟩ | ⟨hk, hne, hfull, hc⟩
    · -- a leaf: the key is its segment, and the leaf goes
      have hrest : rest = [] :=
        List.append_cancel_left ((hk.eq_of_prefix hkey (List.prefix_append nkey rest)).symm.trans
          (List.append_nil nkey).symm)
      subst hrest
      rw [List.append_nil]
      exact ⟨_, delete_short_self resolve flag fuel nkey _ f pfx, deleted_leaf⟩
    · -- an extension: the rest of the key is deleted from the full node below
      have hrest : rest ≠ [] := by
        rintro rfl
        rw [List.append_nil] at hkey
        exact hkey.not_nibbles hk
      have hlt : rest.length < fuel := by
        rw [List.length_append] at hlen
        have := List.length_pos_iff.mpr hne
        omega
      obtain ⟨r, hr, hdel⟩ := ih nval (pfx ++ nkey) rest (.inr hc) (hkey.of_append hk) hlt
      exact ⟨_, delete_short_of_prefix resolve flag hrest hr, deleted_short flag hn hk hne hfull hdel⟩

theorem deletesWith_full {fuel : Nat} (ih : DeletesWith resolve flag fuel) {cs : Fin 17 → Node}
    {f : NodeFlag} (hn : Canon (.full cs f)) (pfx : List UInt8) {key : List UInt8}
    (hkey : HexKey key) (hlen : key.length < fuel + 1) :
    ∃ r, delete resolve flag (fuel + 1) (.full cs f) pfx key = .ok r ∧ Deleted (.full cs f) key r := by
  obtain ⟨i, rest, rfl⟩ := List.exists_cons_of_ne_nil hkey.ne_nil
  rw [List.length_cons] at hlen
  obtain ⟨s, hs⟩ := slot_of_lt (hkey.le_sixteen List.mem_cons_self)
  have hslot := ((canon_full_iff cs f).mp hn).1 s
  rcases hkey.drop_cases (Nat.succ_pos rest.length) with ⟨h16, hnil⟩ | ⟨hlt, hrest⟩
  · -- the terminator: the value slot is emptied
    have hi : i = 16 := h16
    have hr : rest = [] := hnil
    subst hi hr
    have hs16 : s = 16 := Option.some.inj (hs.symm.trans slot_sixteen)
    subst hs16
    obtain ⟨fuel, rfl⟩ : ∃ f', fuel = f' + 1 :=
      ⟨fuel - 1, by simp only [List.length_nil] at hlen; omega⟩
    obtain ⟨r, hr, hlookup, hclean, hnil⟩ := delete_end resolve flag hslot.sixteen fuel (pfx ++ [16])
    obtain ⟨r', hr', hdel⟩ :=
      deleted_full resolve flag hs hn pfx hlookup hclean (by rw [hnil]; exact .inl rfl)
    exact ⟨r', (delete_full_of_slot resolve flag hs hr).trans hr', hdel⟩
  · -- a nibble: the rest of the key is deleted from the child under it
    have hs16 := slot_ne_sixteen hs hlt
    obtain ⟨r, hr, hdel⟩ := ih (cs s) (pfx ++ [i]) rest (hslot.rootCanon hs16) hrest (by omega)
    have hslot' : SlotOk s r.2 := by
      rcases hdel.canon with h | h
      · exact .inl h
      · exact .inr (by rw [if_neg hs16]; exact h)
    obtain ⟨r', hr', hdel'⟩ := deleted_full resolve flag hs hn pfx hdel.lookup_eq hdel.clean hslot'
    exact ⟨r', (delete_full_of_slot resolve flag hs hr).trans hr', hdel'⟩

theorem deletesWith_succ {fuel : Nat} (ih : DeletesWith resolve flag fuel) :
    DeletesWith resolve flag (fuel + 1) := by
  intro n pfx key hn hkey hlen
  rcases hn with rfl | hn
  · exact ⟨_, delete_nil_node resolve flag fuel pfx key, deleted_of_lookup_none (.inl rfl) rfl⟩
  · cases n with
    | short nkey nval f => exact deletesWith_short resolve flag ih hn pfx hkey hlen
    | full cs f => exact deletesWith_full resolve flag ih hn pfx hkey hlen
    | nil | hash _ | value _ => exact hn.elim

/-- `delete` removes a hex key from a canonical trie, given more fuel than the key has nibbles. -/
theorem deletesWith : ∀ fuel, DeletesWith resolve flag fuel
  | 0 => fun _ _ _ _ _ hlen => absurd hlen (Nat.not_lt_zero _)
  | fuel + 1 => deletesWith_succ resolve flag (deletesWith fuel)

end Induction

end AuroraChain.Trie
