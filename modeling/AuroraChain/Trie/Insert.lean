import AuroraChain.Trie.Map
/-!
# Inserting into a trie

`insert` of a value `v ≠ []` under a hex key into a canonical trie sets that key in the map the
trie holds and leaves every other key as it was (`Inserted.lookup_eq`); it returns the trie itself
when it reports no change (`Inserted.clean`), and the trie it returns is canonical again.

The proof follows the walk, one lemma for each kind of node: at a nil node and at the end of a
key the walk stops (`insert_nil_node`, `insert_value_end`); at a short node whose key segment is
all matched and at a full node it goes down one child and rebuilds the node over the new child
(`inserted_short`, `inserted_full`); at a short node the key leaves early it branches out
(`inserted_branch`). `InsertsWith` says what the walk does with a given fuel, and
`insertsWith_succ` is the step of the induction on it.
-/

namespace AuroraChain.Trie

variable (resolve : Resolver) (flag : NodeFlag)

/-! ### The equations of the walk -/

theorem insert_nil_node (fuel : Nat) (pfx k : List UInt8) (c : Node) :
    insert resolve flag (fuel + 1) .nil pfx k c = .ok (true, if k = [] then c else .short k c flag) := by
  cases k <;> rfl

theorem insert_value_end (fuel : Nat) (pfx w v : List UInt8) :
    insert resolve flag (fuel + 1) (.value w) pfx [] (.value v) = .ok (decide (w ≠ v), .value v) :=
  rfl

/-- At the end of a key the walk stores the value, over nothing or over a value, and reports a
change unless that value was there. -/
theorem insert_end {c : Node} (hc : c = .nil ∨ ∃ w, c = .value w) (fuel : Nat) (pfx v : List UInt8) :
    ∃ d, insert resolve flag (fuel + 1) c pfx [] (.value v) = .ok (d, .value v) ∧
      (d = false → Node.value v = c) := by
  rcases hc with rfl | ⟨w, rfl⟩
  · exact ⟨true, insert_nil_node resolve flag fuel pfx [] _, nofun⟩
  · refine ⟨_, insert_value_end resolve flag fuel pfx w v, fun hd => ?_⟩
    rw [decide_eq_false_iff_not, not_not] at hd
    rw [hd]

theorem insert_full_of_slot {fuel : Nat} {cs : Fin 17 → Node} {f : NodeFlag} {pfx : List UInt8}
    {i : UInt8} {s : Fin 17} (hs : slot i = some s) {rest : List UInt8} {c : Node} {r : Bool × Node}
    (h : insert resolve flag fuel (cs s) (pfx ++ [i]) rest c = .ok r) :
    insert resolve flag (fuel + 1) (.full cs f) pfx (i :: rest) c =
      .ok (if !r.1 then (false, .full cs f) else (true, .full (Function.update cs s r.2) flag)) := by
  rw [insert, hs]
  simp only [h]
  rfl

theorem insert_short_of_prefix {fuel : Nat} {nkey rest : List UInt8} {nval : Node} {f : NodeFlag}
    {pfx : List UInt8} (hkey : nkey ++ rest ≠ []) {c : Node} {r : Bool × Node}
    (h : insert resolve flag fuel nval (pfx ++ nkey) rest c = .ok r) :
    insert resolve flag (fuel + 1) (.short nkey nval f) pfx (nkey ++ rest) c =
      .ok (if !r.1 then (false, .short nkey nval f) else (true, .short nkey r.2 flag)) := by
  have hlen : prefixLen (nkey ++ rest) nkey = nkey.length :=
    (prefixLen_eq_length_iff _ _).mpr (List.prefix_append nkey rest)
  obtain ⟨x, xs, hx⟩ := List.exists_cons_of_ne_nil hkey
  rw [hx, insert]
  simp only [← hx, hlen, if_true, List.take_left, List.drop_left, h]
  rfl

/-- Where the key leaves a short node's key segment early, the walk puts the rest of the segment
and the rest of the key into nil slots of a new full node. -/
theorem insert_short_branch {fuel : Nat} {nkey key : List UInt8} {nval : Node} {f : NodeFlag}
    {pfx : List UInt8} (hkey : key ≠ []) (hm : prefixLen key nkey ≠ nkey.length) {s1 s2 : Fin 17}
    (h1 : nkey[prefixLen key nkey]?.bind slot = some s1)
    (h2 : key[prefixLen key nkey]?.bind slot = some s2) {c c1 c2 : Node} {d1 d2 : Bool}
    (hc1 : insert resolve flag fuel .nil (pfx ++ nkey.take (prefixLen key nkey + 1))
      (nkey.drop (prefixLen key nkey + 1)) nval = .ok (d1, c1))
    (hc2 : insert resolve flag fuel .nil (pfx ++ key.take (prefixLen key nkey + 1))
      (key.drop (prefixLen key nkey + 1)) c = .ok (d2, c2)) :
    insert resolve flag (fuel + 1) (.short nkey nval f) pfx key c =
      .ok (true, if prefixLen key nkey = 0 then branchOut s1 c1 s2 c2 flag
        else .short (key.take (prefixLen key nkey)) (branchOut s1 c1 s2 c2 flag) flag) := by
  obtain ⟨x, xs, hx⟩ := List.exists_cons_of_ne_nil hkey
  subst hx
  rw [insert]
  simp only [if_neg hm, h1, h2, hc1, hc2]
  -- the code builds the pair in each branch of the test on the common prefix
  split <;> rfl

/-! ### What the walk builds -/

theorem lookup_nil_eq : lookup .nil = fun _ => none := rfl

theorem shiftMap_value (k v : List UInt8) :
    shiftMap k (lookup (.value v)) = Function.update (fun _ => none) k (some v) := by
  funext key
  by_cases hk : key = k
  · subst hk
    rw [Function.update_self, shiftMap, if_pos (List.prefix_refl key), List.drop_length]
    rfl
  · rw [Function.update_of_ne hk, shiftMap]
    split
    · rename_i hpre
      obtain ⟨t, rfl⟩ := hpre
      rw [List.drop_left, lookup_value, if_neg]
      rintro rfl
      exact hk (List.append_nil k)
    · rfl

theorem lookup_value_update {c : Node} (hc : c = .nil ∨ ∃ w, c = .value w) (v : List UInt8) :
    lookup (.value v) = Function.update (lookup c) [] (some v) := by
  funext key
  by_cases hk : key = []
  · rw [hk, Function.update_self, lookup_value, if_pos rfl]
  · rw [Function.update_of_ne hk, lookup_value, if_neg hk]
    rcases hc with rfl | ⟨w, rfl⟩
    · rfl
    · rw [lookup_value, if_neg hk]

theorem lookup_branchOut {a b : UInt8} {s1 s2 : Fin 17} (ha : slot a = some s1)
    (hb : slot b = some s2) (hab : a ≠ b) (c1 c2 : Node) (f : NodeFlag) (x : UInt8)
    (r : List UInt8) :
    lookup (branchOut s1 c1 s2 c2 f) (x :: r) =
      if x = a then lookup c1 r else if x = b then lookup c2 r else none := by
  have hs : s1 ≠ s2 := by
    rintro rfl
    exact hab (slot_inj ha hb)
  unfold branchOut
  by_cases hxa : x = a
  · subst hxa
    rw [if_pos rfl, lookup_full_slot _ _ ha, Function.update_of_ne hs, Function.update_self]
  · rw [if_neg hxa]
    by_cases hxb : x = b
    · subst hxb
      rw [if_pos rfl, lookup_full_slot _ _ hb, Function.update_self]
    · rw [if_neg hxb]
      cases hx : slot x with
      | none => exact lookup_full_of_slot_none _ _ hx r
      | some t =>
          have h1 : t ≠ s1 := by
            rintro rfl
            exact hxa (slot_inj hx ha)
          have h2 : t ≠ s2 := by
            rintro rfl
            exact hxb (slot_inj hx hb)
          rw [lookup_full_slot _ _ hx, Function.update_of_ne h2, Function.update_of_ne h1, lookup_nil]

/-- The full node a short node branches out into holds the short node's map with the new key
set: the rest of the old segment under one nibble, the rest of the key under the other. -/
theorem lookup_branchOut_eq {a b : UInt8} {s1 s2 : Fin 17} (ha : slot a = some s1)
    (hb : slot b = some s2) (hab : a ≠ b) {c1 c2 : Node} {nrest krest v : List UInt8}
    {M : List UInt8 → Option (List UInt8)} (h1 : lookup c1 = shiftMap nrest M)
    (h2 : lookup c2 = shiftMap krest (lookup (.value v))) (f : NodeFlag) :
    lookup (branchOut s1 c1 s2 c2 f) = Function.update (shiftMap (a :: nrest) M) (b :: krest) (some v) := by
  funext key
  cases key with
  | nil =>
      rw [branchOut, lookup_full_nil, Function.update_of_ne (List.cons_ne_nil _ _).symm,
        shiftMap_eq_none]
      exact fun h => List.cons_ne_nil _ _ (List.prefix_nil.mp h)
  | cons x r =>
      rw [lookup_branchOut ha hb hab]
      by_cases hxa : x = a
      · subst hxa
        rw [if_pos rfl, h1, Function.update_of_ne (fun h => hab (List.cons.inj h).1),
          shiftMap_cons_cons, if_pos rfl]
      · rw [if_neg hxa]
        by_cases hxb : x = b
        · -- the new key's nibble: only the new value is under it
          subst hxb
          rw [if_pos rfl, h2, shiftMap_value]
          by_cases hr : r = krest
          · rw [hr, Function.update_self, Function.update_self]
          · rw [Function.update_of_ne hr, Function.update_of_ne (fun h => hr (List.cons.inj h).2),
              shiftMap_cons_cons, if_neg hxa]
        · rw [if_neg hxb, Function.update_of_ne (fun h => hxb (List.cons.inj h).1),
            shiftMap_cons_cons, if_neg hxa]

theorem canon_branchOut {s1 s2 : Fin 17} {c1 c2 : Node} (hs : s1 ≠ s2) (h1 : SlotOk s1 c1)
    (h2 : SlotOk s2 c2) (hne1 : c1 ≠ .nil) (hne2 : c2 ≠ .nil) (f : NodeFlag) :
    Canon (branchOut s1 c1 s2 c2 f) := by
  unfold branchOut
  refine (canon_full_iff _ f).mpr ⟨fun t => ?_, s1, s2, hs, ?_, ?_⟩
  · by_cases ht2 : t = s2
    · rw [ht2, Function.update_self]
      exact h2
    · rw [Function.update_of_ne ht2]
      by_cases ht1 : t = s1
      · rw [ht1, Function.update_self]
        exact h1
      · rw [Function.update_of_ne ht1]
        exact .inl rfl
  · rw [Function.update_of_ne hs, Function.update_self]
    exact hne1
  · rw [Function.update_self]
    exact hne2

theorem lookup_ite_take (m : Nat) (k : List UInt8) (B : Node) (f : NodeFlag) :
    lookup (if m = 0 then B else .short (k.take m) B f) = shiftMap (k.take m) (lookup B) := by
  split
  · rename_i h0
    rw [h0, List.take_zero, shiftMap_nil]
  · rfl

theorem ite_short_ne_nil {k : List UInt8} {c : Node} (f : NodeFlag) (hc : c ≠ .nil) :
    (if k = [] then c else .short k c f) ≠ .nil := by
  split
  · exact hc
  · exact Node.noConfusion

/-- The rest of a canonical short node's key segment after a nibble, over the node's child, fits
that nibble's slot. -/
theorem slotOk_tail {nkey : List UInt8} {nval : Node} {f : NodeFlag} (hn : Canon (.short nkey nval f))
    {m : Nat} (hm : m < nkey.length) {s : Fin 17} (hs : slot nkey[m] = some s) :
    SlotOk s (if nkey.drop (m + 1) = [] then nval else .short (nkey.drop (m + 1)) nval flag) := by
  rcases hn with ⟨hk, w, rfl, hw⟩ | ⟨hk, -, hfull, hc⟩
  · rcases hk.drop_cases hm with ⟨h16, hnil⟩ | ⟨hlt, hrest⟩
    · -- the segment ends here: the value goes to the value slot
      have hs16 : s = 16 := Option.some.inj (hs.symm.trans (h16 ▸ slot_sixteen))
      rw [if_pos hnil]
      exact .inr (by rw [if_pos hs16]; exact ⟨w, rfl, hw⟩)
    · rw [if_neg hrest.ne_nil]
      exact .inr (by rw [if_neg (slot_ne_sixteen hs hlt)]; exact .inl ⟨hrest, w, rfl, hw⟩)
  · have hs16 := slot_ne_sixteen hs (hk _ (List.getElem_mem hm))
    by_cases hnil : nkey.drop (m + 1) = []
    · rw [if_pos hnil]
      exact .inr (by rw [if_neg hs16]; exact hc)
    · rw [if_neg hnil]
      have hrest : Nibbles (nkey.drop (m + 1)) := fun x hx => hk x (List.mem_of_mem_drop hx)
      exact .inr (by rw [if_neg hs16]; exact .inr ⟨hrest, hnil, hfull, hc⟩)

theorem Canon.short_key_le {nkey : List UInt8} {nval : Node} {f : NodeFlag}
    (hn : Canon (.short nkey nval f)) {x : UInt8} (hx : x ∈ nkey) : x ≤ 16 := by
  rcases hn with ⟨hk, -⟩ | ⟨hk, -⟩
  · exact hk.le_sixteen hx
  · exact UInt8.le_of_lt (hk x hx)

/-- A hex key that is no extension of a canonical short node's key segment leaves it before its
own end. -/
theorem prefixLen_lt_of_canon {nkey key : List UInt8} {nval : Node} {f : NodeFlag}
    (hn : Canon (.short nkey nval f)) (hkey : HexKey key) (hm : prefixLen key nkey ≠ nkey.length) :
    prefixLen key nkey < key.length := by
  refine lt_of_le_of_ne (prefixLen_le_left _ _) fun hlen => ?_
  have hpre : key <+: nkey := by
    have h := take_prefixLen key nkey
    rw [hlen, List.take_length] at h
    rw [h]
    exact List.take_prefix _ _
  rcases hn with ⟨hk, -⟩ | ⟨hk, -⟩
  · -- two hex keys, one a prefix of the other, are one key
    rw [hkey.eq_of_prefix hk hpre, prefixLen_self] at hm
    exact hm rfl
  · exact hkey.not_nibbles fun x hx => hk x (hpre.subset hx)

/-! ### The spec -/

/-- What inserting `v` under `key` into `n` leaves: a canonical node that holds `n`'s map with
`key` set to `v`, `n` itself when the walk reports no change, and a full node where `n` was one. -/
structure Inserted (n : Node) (key v : List UInt8) (r : Bool × Node) : Prop where
  lookup_eq : lookup r.2 = Function.update (lookup n) key (some v)
  clean : r.1 = false → r.2 = n
  canon : Canon r.2
  full : n.IsFull → r.2.IsFull

theorem inserted_nil {key v : List UInt8} (hkey : HexKey key) (hv : v ≠ []) :
    Inserted .nil key v (true, if key = [] then .value v else .short key (.value v) flag) where
  lookup_eq := by
    rw [lookup_ite_short, shiftMap_value, lookup_nil_eq]
  clean := nofun
  canon := by
    rw [if_neg hkey.ne_nil]
    exact .inl ⟨hkey, v, rfl, hv⟩
  full := nofun

/-- A short node rebuilt over its child's new node, or left as it was. -/
theorem inserted_short {nkey rest v : List UInt8} {c : Node} {f : NodeFlag}
    (hn : Canon (.short nkey c f)) {r : Bool × Node}
    (hlookup : lookup r.2 = Function.update (lookup c) rest (some v))
    (hclean : r.1 = false → r.2 = c) (hcanon : Canon (.short nkey r.2 flag)) :
    Inserted (.short nkey c f) (nkey ++ rest) v
      (if !r.1 then (false, .short nkey c f) else (true, .short nkey r.2 flag)) := by
  obtain ⟨dirty, nn⟩ := r
  cases dirty with
  | false =>
      show Inserted _ _ _ (false, .short nkey c f)
      have hnn : nn = c := hclean rfl
      subst hnn
      refine ⟨?_, fun _ => rfl, hn, nofun⟩
      rw [lookup_short_eq, ← shiftMap_update, ← hlookup]
  | true =>
      show Inserted _ _ _ (true, .short nkey nn flag)
      exact ⟨by rw [lookup_short_eq, lookup_short_eq, hlookup, shiftMap_update], nofun, hcanon, nofun⟩

/-- A full node rebuilt over its child's new node, or left as it was. -/
theorem inserted_full {cs : Fin 17 → Node} {f : NodeFlag} {i : UInt8} {s : Fin 17}
    (hs : slot i = some s) (hn : Canon (.full cs f)) {rest v : List UInt8} {r : Bool × Node}
    (hlookup : lookup r.2 = Function.update (lookup (cs s)) rest (some v))
    (hclean : r.1 = false → r.2 = cs s) (hslot : SlotOk s r.2) (hne : r.2 ≠ .nil) :
    Inserted (.full cs f) (i :: rest) v
      (if !r.1 then (false, .full cs f) else (true, .full (Function.update cs s r.2) flag)) := by
  obtain ⟨dirty, nn⟩ := r
  cases dirty with
  | false =>
      show Inserted _ _ _ (false, .full cs f)
      have hnn : nn = cs s := hclean rfl
      subst hnn
      refine ⟨?_, fun _ => rfl, hn, id⟩
      rw [← lookup_full_update cs f f hs rest (cs s) (some v) hlookup, Function.update_eq_self]
  | true =>
      show Inserted _ _ _ (true, .full (Function.update cs s nn) flag)
      exact ⟨lookup_full_update cs f flag hs rest nn (some v) hlookup, nofun,
        canon_full_update hn hslot hne, fun _ => trivial⟩

/-- A short node the key leaves early, branched out into a full node under the common prefix. -/
theorem inserted_branch {nkey key v : List UInt8} {nval c1 c2 : Node} {f : NodeFlag} {m : Nat}
    (hm : prefixLen key nkey = m) (hmn : m < nkey.length) (hmk : m < key.length)
    (hkey : HexKey key) {s1 s2 : Fin 17} (hs1 : slot nkey[m] = some s1) (hs2 : slot key[m] = some s2)
    (h1 : lookup c1 = shiftMap (nkey.drop (m + 1)) (lookup nval)) (hslot1 : SlotOk s1 c1)
    (hne1 : c1 ≠ .nil) (h2 : lookup c2 = shiftMap (key.drop (m + 1)) (lookup (.value v)))
    (hslot2 : SlotOk s2 c2) (hne2 : c2 ≠ .nil) :
    Inserted (.short nkey nval f) key v
      (true, if m = 0 then branchOut s1 c1 s2 c2 flag
        else .short (key.take m) (branchOut s1 c1 s2 c2 flag) flag) := by
  have hne : key[m] ≠ nkey[m] := by
    subst hm
    exact getElem_prefixLen_ne key nkey hmk hmn
  have hs : s1 ≠ s2 := by
    rintro rfl
    exact hne (slot_inj hs2 hs1)
  have htake : key.take m = nkey.take m := by
    rw [← hm]
    exact take_prefixLen key nkey
  have hnkey : nkey = key.take m ++ nkey[m] :: nkey.drop (m + 1) := by
    rw [htake, ← List.drop_eq_getElem_cons hmn, List.take_append_drop]
  have hkey' : key = key.take m ++ key[m] :: key.drop (m + 1) := by
    rw [← List.drop_eq_getElem_cons hmk, List.take_append_drop]
  have hB := canon_branchOut hs hslot1 hslot2 hne1 hne2 flag
  refine ⟨?_, nofun, ?_, nofun⟩
  · dsimp only
    rw [lookup_ite_take, lookup_branchOut_eq hs1 hs2 (Ne.symm hne) h1 h2, shiftMap_update,
      ← shiftMap_append, ← hnkey, ← hkey', lookup_short_eq]
  · dsimp only
    split
    · exact hB
    · rename_i h0
      refine .inr ⟨hkey.take_nibbles hmk, fun h => ?_, trivial, hB⟩
      exact (List.take_eq_nil_iff.mp h).elim h0 hkey.ne_nil

/-- `insert` with `fuel` sets `v` in every canonical trie under every hex key shorter than the
fuel. -/
def InsertsWith (fuel : Nat) (v : List UInt8) : Prop :=
  ∀ n pfx key, RootCanon n → HexKey key → key.length < fuel →
    ∃ r, insert resolve flag fuel n pfx key (.value v) = .ok r ∧ Inserted n key v r

theorem insertsWith_short {fuel : Nat} {v : List UInt8} (hv : v ≠ [])
    (ih : InsertsWith resolve flag fuel v) {nkey : List UInt8} {nval : Node} {f : NodeFlag}
    (hn : Canon (.short nkey nval f)) (pfx : List UInt8) {key : List UInt8} (hkey : HexKey key)
    (hlen : key.length < fuel + 1) :
    ∃ r, insert resolve flag (fuel + 1) (.short nkey nval f) pfx key (.value v) = .ok r ∧
      Inserted (.short nkey nval f) key v r := by
  have hfuel : 0 < fuel := by
    have := List.length_pos_iff.mpr hkey.ne_nil
    omega
  by_cases hm : prefixLen key nkey = nkey.length
  · -- the whole segment matches: the walk goes on below it
    obtain ⟨rest, rfl⟩ := (prefixLen_eq_length_iff key nkey).mp hm
    rcases id hn with ⟨hk, w, rfl, hw⟩ | ⟨hk, hne, hfull, hc⟩
    · -- a leaf: the key is its segment, and the value is replaced
      have hrest : rest = [] :=
        List.append_cancel_left ((hk.eq_of_prefix hkey (List.prefix_append nkey rest)).symm.trans
          (List.append_nil nkey).symm)
      subst hrest
      obtain ⟨fuel, rfl⟩ : ∃ f', fuel = f' + 1 := ⟨fuel - 1, by omega⟩
      obtain ⟨d, hd, hclean⟩ := insert_end resolve flag (.inr ⟨w, rfl⟩) fuel (pfx ++ nkey) v
      exact ⟨_, insert_short_of_prefix resolve flag hkey.ne_nil hd,
        inserted_short flag hn (lookup_value_update (.inr ⟨w, rfl⟩) v) hclean (.inl ⟨hk, v, rfl, hv⟩)⟩
    · -- an extension: the rest of the key goes into the full node below
      have hlt : rest.length < fuel := by
        rw [List.length_append] at hlen
        have := List.length_pos_iff.mpr hne
        omega
      obtain ⟨r, hr, hins⟩ := ih nval (pfx ++ nkey) rest (.inr hc) (hkey.of_append hk) hlt
      exact ⟨_, insert_short_of_prefix resolve flag hkey.ne_nil hr,
        inserted_short flag hn hins.lookup_eq hins.clean (.inr ⟨hk, hne, hins.full hfull, hins.canon⟩)⟩
  · -- the key leaves the segment early: branch out
    have hmn : prefixLen key nkey < nkey.length := lt_of_le_of_ne (prefixLen_le_right _ _) hm
    have hmk := prefixLen_lt_of_canon hn hkey hm
    obtain ⟨fuel, rfl⟩ : ∃ f', fuel = f' + 1 := ⟨fuel - 1, by omega⟩
    obtain ⟨s1, hs1⟩ := slot_of_lt (hn.short_key_le (List.getElem_mem hmn))
    obtain ⟨s2, hs2⟩ := slot_of_lt (hkey.le_sixteen (List.getElem_mem hmk))
    have hleaf : Canon (.short key (.value v) flag) := .inl ⟨hkey, v, rfl, hv⟩
    refine ⟨_, insert_short_branch resolve flag hkey.ne_nil hm
      (by rw [List.getElem?_eq_getElem hmn, Option.bind_some, hs1])
      (by rw [List.getElem?_eq_getElem hmk, Option.bind_some, hs2])
      (insert_nil_node resolve flag fuel _ _ nval) (insert_nil_node resolve flag fuel _ _ (.value v)),
      inserted_branch flag rfl hmn hmk hkey hs1 hs2 (lookup_ite_short _ _ _) (slotOk_tail flag hn hmn hs1)
        (ite_short_ne_nil flag hn.short_val_ne_nil) (lookup_ite_short _ _ _)
        (slotOk_tail flag hleaf hmk hs2) (ite_short_ne_nil flag Node.noConfusion)⟩

theorem insertsWith_full {fuel : Nat} {v : List UInt8} (hv : v ≠ [])
    (ih : InsertsWith resolve flag fuel v) {cs : Fin 17 → Node} {f : NodeFlag}
    (hn : Canon (.full cs f)) (pfx : List UInt8) {key : List UInt8} (hkey : HexKey key)
    (hlen : key.length < fuel + 1) :
    ∃ r, insert resolve flag (fuel + 1) (.full cs f) pfx key (.value v) = .ok r ∧
      Inserted (.full cs f) key v r := by
  obtain ⟨i, rest, rfl⟩ := List.exists_cons_of_ne_nil hkey.ne_nil
  rw [List.length_cons] at hlen
  obtain ⟨s, hs⟩ := slot_of_lt (hkey.le_sixteen List.mem_cons_self)
  have hslot := ((canon_full_iff cs f).mp hn).1 s
  rcases hkey.drop_cases (Nat.succ_pos rest.length) with ⟨h16, hnil⟩ | ⟨hlt, hrest⟩
  · -- the terminator: the value goes to the value slot
    have hi : i = 16 := h16
    have hr : rest = [] := hnil
    subst hi hr
    have hs16 : s = 16 := Option.some.inj (hs.symm.trans slot_sixteen)
    subst hs16
    have hc : cs 16 = .nil ∨ ∃ w, cs 16 = .value w := by
      rcases hslot with h | h
      · exact .inl h
      · rw [if_pos rfl] at h
        obtain ⟨w, hw, -⟩ := h
        exact .inr ⟨w, hw⟩
    obtain ⟨fuel, rfl⟩ : ∃ f', fuel = f' + 1 := ⟨fuel - 1, by simp only [List.length_nil] at hlen; omega⟩
    obtain ⟨d, hd, hclean⟩ := insert_end resolve flag hc fuel (pfx ++ [16]) v
    exact ⟨_, insert_full_of_slot resolve flag hs hd, inserted_full flag hs hn (lookup_value_update hc v)
      hclean (.inr (by rw [if_pos rfl]; exact ⟨v, rfl, hv⟩)) Node.noConfusion⟩
  · -- a nibble: the rest of the key goes into the child under it
    have hs16 := slot_ne_sixteen hs hlt
    have hchild : RootCanon (cs s) := by
      rcases hslot with h | h
      · exact .inl h
      · rw [if_neg hs16] at h
        exact .inr h
    obtain ⟨r, hr, hins⟩ := ih (cs s) (pfx ++ [i]) rest hchild hrest (by omega)
    exact ⟨_, insert_full_of_slot resolve flag hs hr, inserted_full flag hs hn hins.lookup_eq
      hins.clean (.inr (by rw [if_neg hs16]; exact hins.canon)) hins.canon.ne_nil⟩

theorem insertsWith_succ {fuel : Nat} {v : List UInt8} (hv : v ≠ [])
    (ih : InsertsWith resolve flag fuel v) : InsertsWith resolve flag (fuel + 1) v := by
  intro n pfx key hn hkey hlen
  rcases hn with rfl | hn
  · exact ⟨_, insert_nil_node resolve flag fuel pfx key _, inserted_nil flag hkey hv⟩
  · cases n with
    | short nkey nval f => exact insertsWith_short resolve flag hv ih hn pfx hkey hlen
    | full cs f => exact insertsWith_full resolve flag hv ih hn pfx hkey hlen
    | nil => exact hn.elim
    | hash _ => exact hn.elim
    | value _ => exact hn.elim

/-- `insert` sets a value under a hex key in a canonical trie, given more fuel than the key has
nibbles. -/
theorem insertsWith {v : List UInt8} (hv : v ≠ []) : ∀ fuel, InsertsWith resolve flag fuel v
  | 0 => fun _ _ _ _ _ hlen => absurd hlen (Nat.not_lt_zero _)
  | fuel + 1 => insertsWith_succ resolve flag hv (insertsWith hv fuel)

end AuroraChain.Trie
