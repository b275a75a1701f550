import AuroraChain.Trie.Delete
/-!
# The trie as a map: `Trie.TryGet`, `Trie.TryUpdate` and `Trie.TryDelete`

The three methods turn key bytes into a hex key and walk it from the root with `tryGet`, `insert`
and `delete`, each walk given twice the hex key's length as fuel (`walkFuel`). The callers in
`StateDB` and `DelegateDB` pass each write's error to `setError`, which keeps the first one, and
go on with the next write (`Trie.writeAll`).

What a trie is for is a map from key bytes to values (`KeyMap`), in which writing an empty value
removes the key. `Trie.Holds t M` says that `t` is canonical and holds `M` under the hex keys of
`M`'s keys (`hexKeyMap`). Every write keeps it: the write succeeds and leaves a canonical trie
holding the map with the key set or removed (`TrieOp.apply_holds`), so a whole run of writes does
(`Trie.writeAll_holds`), and `TryGet` answers from it without touching the trie
(`Trie.tryGet_of_holds`). A canonical trie holds no hash node, so the database is never read.
-/

set_option linter.dupNamespace false

namespace AuroraChain.Trie

/-- `Trie`: the root node, and the cache generation new nodes are tagged with. The database is the
resolver the walks are given. -/
structure Trie where
  root : Node
  cachegen : Nat

/-- The fuel of a walk along a hex key: twice the key's length. -/
def walkFuel (k : List UInt8) : Nat := 2 * k.length

/-- `Trie.TryGet(key)`: the value under `key`, and the trie, whose root is the walk's new node when
the walk resolved a hash node. -/
def Trie.tryGet (resolve : Resolver) (t : Trie) (key : List UInt8) :
    Except TrieError (Option (List UInt8)) × Trie :=
  let k := keybytesToHex key
  match AuroraChain.Trie.tryGet resolve t.cachegen (walkFuel k) t.root k 0 with
  | .ok (value, newroot, didResolve) =>
      (.ok value, if didResolve then { t with root := newroot } else t)
  | .error err => (.error err, t)

/-- The end of `TryUpdate` and `TryDelete`: an error is returned and the trie stays as it was;
otherwise the walk's node becomes the root. -/
def Trie.setRoot (t : Trie) : Except TrieError (Bool × Node) → Except TrieError Unit × Trie
  | .ok (_, n) => (.ok (), { t with root := n })
  | .error err => (.error err, t)

/-- `Trie.TryUpdate(key, value)`: an insert of a value that is not empty, a delete for an empty
one. -/
def Trie.tryUpdate (resolve : Resolver) (t : Trie) (key value : List UInt8) :
    Except TrieError Unit × Trie :=
  let k := keybytesToHex key
  if value.length ≠ 0 then
    t.setRoot (insert resolve (newFlag t.cachegen) (walkFuel k) t.root [] k (.value value))
  else t.setRoot (delete resolve (newFlag t.cachegen) (walkFuel k) t.root [] k)

def Trie.tryDelete (resolve : Resolver) (t : Trie) (key : List UInt8) : Except TrieError Unit × Trie :=
  let k := keybytesToHex key
  t.setRoot (delete resolve (newFlag t.cachegen) (walkFuel k) t.root [] k)

/-- A write: `TryUpdate` of a key with a value, or `TryDelete` of a key. -/
inductive TrieOp where
  | update (key value : List UInt8)
  | delete (key : List UInt8)

def TrieOp.apply (resolve : Resolver) (t : Trie) : TrieOp → Except TrieError Unit × Trie
  | .update key value => t.tryUpdate resolve key value
  | .delete key => t.tryDelete resolve key

/-- `setError`: the first error of a run of writes is kept. -/
def setError (dbErr : Option TrieError) (err : Except TrieError Unit) : Option TrieError :=
  match dbErr, err with
  | none, .error e => some e
  | dbErr, _ => dbErr

/-- A run of writes as `StateDB` and `DelegateDB` make them: each error goes to `setError`, and the
next write goes on from the trie the last one left. -/
def Trie.writeAll (resolve : Resolver) (dbErr : Option TrieError) (t : Trie) :
    List TrieOp → Option TrieError × Trie
  | [] => (dbErr, t)
  | op :: ops =>
      Trie.writeAll resolve (setError dbErr (op.apply resolve t).1) (op.apply resolve t).2 ops

/-! ### What a trie is for -/

/-- The value under each key. -/
abbrev KeyMap := List UInt8 → Option (List UInt8)

/-- A write to the map: an empty value removes the key. -/
def TrieOp.write (M : KeyMap) : TrieOp → KeyMap
  | .update key value => Function.update M key (if value = [] then none else some value)
  | .delete key => Function.update M key none

open Classical in
/-- The map read under hex keys: under the hex key of some key bytes, their value; under any other
list, nothing. -/
noncomputable def hexKeyMap (M : KeyMap) : List UInt8 → Option (List UInt8) := fun k =>
  if h : ∃ key, keybytesToHex key = k then M h.choose else none

theorem hexKeyMap_keybytesToHex (M : KeyMap) (key : List UInt8) :
    hexKeyMap M (keybytesToHex key) = M key := by
  have h : ∃ key', keybytesToHex key' = keybytesToHex key := ⟨key, rfl⟩
  rw [hexKeyMap, dif_pos h, keybytesToHex_injective h.choose_spec]

theorem hexKeyMap_of_not_mem {M : KeyMap} {k : List UInt8} (h : ¬ ∃ key, keybytesToHex key = k) :
    hexKeyMap M k = none := by
  rw [hexKeyMap, dif_neg h]

theorem hexKeyMap_empty : hexKeyMap (fun _ => none) = fun _ => none := by
  funext k
  by_cases h : ∃ key, keybytesToHex key = k
  · obtain ⟨key, rfl⟩ := h
    exact hexKeyMap_keybytesToHex _ key
  · exact hexKeyMap_of_not_mem h

theorem hexKeyMap_update (M : KeyMap) (key : List UInt8) (v : Option (List UInt8)) :
    hexKeyMap (Function.update M key v) = Function.update (hexKeyMap M) (keybytesToHex key) v := by
  funext k
  by_cases h : ∃ key', keybytesToHex key' = k
  · obtain ⟨key', rfl⟩ := h
    rw [hexKeyMap_keybytesToHex]
    by_cases hk : key' = key
    · rw [hk, Function.update_self, Function.update_self]
    · rw [Function.update_of_ne hk, Function.update_of_ne (fun h => hk (keybytesToHex_injective h)),
        hexKeyMap_keybytesToHex]
  · have hne : k ≠ keybytesToHex key := fun hk => h ⟨key, hk.symm⟩
    rw [hexKeyMap_of_not_mem h, Function.update_of_ne hne, hexKeyMap_of_not_mem h]

/-! ### Reading -/

section Read

variable (resolve : Resolver) (cachegen : Nat)

theorem tryGet_short_miss {fuel : Nat} {nkey : List UInt8} {val : Node} {f : NodeFlag}
    {key : List UInt8} {pos : Nat} (h : ¬ nkey <+: key.drop pos) :
    tryGet resolve cachegen (fuel + 1) (.short nkey val f) key pos = .ok (none, .short nkey val f, false) := by
  rw [tryGet, if_pos]
  by_contra hc
  exact h (List.prefix_iff_eq_take.mpr (not_not.mp (not_or.mp hc).2))

theorem tryGet_short_hit {fuel : Nat} {nkey : List UInt8} {val : Node} {f : NodeFlag}
    {key : List UInt8} {pos : Nat} (h : nkey <+: key.drop pos) {v : Option (List UInt8)}
    (hr : tryGet resolve cachegen fuel val key (pos + nkey.length) = .ok (v, val, false)) :
    tryGet resolve cachegen (fuel + 1) (.short nkey val f) key pos = .ok (v, .short nkey val f, false) := by
  have hlen : ¬ key.length - pos < nkey.length := by
    have := h.length_le
    rw [List.length_drop] at this
    omega
  rw [tryGet, if_neg (not_or.mpr ⟨hlen, not_not.mpr (List.prefix_iff_eq_take.mp h)⟩), hr]
  rfl

theorem tryGet_full_of_slot {fuel : Nat} {cs : Fin 17 → Node} {f : NodeFlag} {key : List UInt8}
    {pos : Nat} {i : UInt8} (hi : key[pos]? = some i) {s : Fin 17} (hs : slot i = some s)
    {v : Option (List UInt8)} (hr : tryGet resolve cachegen fuel (cs s) key (pos + 1) = .ok (v, cs s, false)) :
    tryGet resolve cachegen (fuel + 1) (.full cs f) key pos = .ok (v, .full cs f, false) := by
  rw [tryGet, hi]
  simp only [hs, hr]
  rfl

theorem tryGet_end {c : Node} (hc : c = .nil ∨ ∃ w, c = .value w) (fuel : Nat) {key : List UInt8}
    {pos : Nat} (hend : key.drop pos = []) :
    tryGet resolve cachegen (fuel + 1) c key pos = .ok (lookup c (key.drop pos), c, false) := by
  rw [hend]
  rcases hc with rfl | ⟨w, rfl⟩ <;> rfl

/-- `tryGet` with `fuel` reads the map of every canonical trie under every hex key shorter than the
fuel, and resolves nothing. -/
def ReadsWith (fuel : Nat) : Prop :=
  ∀ n key pos, RootCanon n → HexKey (key.drop pos) → (key.drop pos).length < fuel →
    tryGet resolve cachegen fuel n key pos = .ok (lookup n (key.drop pos), n, false)

theorem readsWith_short {fuel : Nat} (ih : ReadsWith resolve cachegen fuel) {nkey : List UInt8}
    {val : Node} {f : NodeFlag} (hn : Canon (.short nkey val f)) {key : List UInt8} {pos : Nat}
    (hkey : HexKey (key.drop pos)) (hlen : (key.drop pos).length < fuel + 1) :
    tryGet resolve cachegen (fuel + 1) (.short nkey val f) key pos =
      .ok (lookup (.short nkey val f) (key.drop pos), .short nkey val f, false) := by
  by_cases hpre : nkey <+: key.drop pos
  · rw [lookup_short, if_pos hpre]
    have hdrop : key.drop (pos + nkey.length) = (key.drop pos).drop nkey.length := by
      rw [List.drop_drop]
    have hle := hpre.length_le
    obtain ⟨rest, hrest⟩ := hpre
    rcases hn with ⟨hk, w, rfl, -⟩ | ⟨hk, hne, -, hc⟩
    · -- a leaf: the key ends with its segment
      have hend : (key.drop pos).drop nkey.length = [] := by
        rw [← hk.eq_of_prefix hkey ⟨rest, hrest⟩, List.drop_length]
      have hpos := List.length_pos_iff.mpr hk.ne_nil
      obtain ⟨fuel, rfl⟩ : ∃ f', fuel = f' + 1 := ⟨fuel - 1, by omega⟩
      refine tryGet_short_hit resolve cachegen ⟨rest, hrest⟩ ?_
      rw [tryGet_end resolve cachegen (.inr ⟨w, rfl⟩) fuel (hdrop.trans hend), hdrop]
    · -- the rest of the key is read from the full node below
      have hrestkey : HexKey ((key.drop pos).drop nkey.length) := by
        rw [← hrest, List.drop_left]
        exact (hrest ▸ hkey).of_append hk
      have hlt : ((key.drop pos).drop nkey.length).length < fuel := by
        rw [List.length_drop]
        have := List.length_pos_iff.mpr hne
        omega
      refine tryGet_short_hit resolve cachegen ⟨rest, hrest⟩ ?_
      rw [ih val key (pos + nkey.length) (.inr hc) (hdrop ▸ hrestkey) (hdrop ▸ hlt), hdrop]
  · rw [tryGet_short_miss resolve cachegen hpre, lookup_short, if_neg hpre]

theorem readsWith_full {fuel : Nat} (ih : ReadsWith resolve cachegen fuel) {cs : Fin 17 → Node}
    {f : NodeFlag} (hn : Canon (.full cs f)) {key : List UInt8} {pos : Nat}
    (hkey : HexKey (key.drop pos)) (hlen : (key.drop pos).length < fuel + 1) :
    tryGet resolve cachegen (fuel + 1) (.full cs f) key pos =
      .ok (lookup (.full cs f) (key.drop pos), .full cs f, false) := by
  obtain ⟨i, rest, hir⟩ := List.exists_cons_of_ne_nil hkey.ne_nil
  have hi : key[pos]? = some i := by
    rw [← Nat.add_zero pos, ← List.getElem?_drop, hir]
    rfl
  have hrest : key.drop (pos + 1) = rest := by
    rw [← List.drop_drop, hir]
    rfl
  obtain ⟨s, hs⟩ := slot_of_lt (hkey.le_sixteen (hir ▸ List.mem_cons_self))
  have hslot : SlotOk s (cs s) := ((canon_full_iff cs f).mp hn).1 s
  rw [hir, lookup_full_slot _ _ hs]
  rw [hir, List.length_cons] at hlen
  rw [hir] at hkey
  rcases hkey.drop_cases (Nat.succ_pos rest.length) with ⟨h16, hnil⟩ | ⟨hlt, hrestkey⟩
  · -- the terminator: the value slot is read
    have hi16 : i = 16 := h16
    have hs16 : s = 16 := Option.some.inj (hs.symm.trans (hi16 ▸ slot_sixteen))
    subst hs16
    have hnil' : rest = [] := hnil
    obtain ⟨fuel, rfl⟩ : ∃ f', fuel = f' + 1 := ⟨fuel - 1, by rw [hnil'] at hlen; omega⟩
    refine tryGet_full_of_slot resolve cachegen hi hs ?_
    rw [tryGet_end resolve cachegen hslot.sixteen fuel (hrest.trans hnil'), hrest]
  · -- a nibble: the rest of the key is read from the child under it
    have hrestkey' : HexKey (key.drop (pos + 1)) := by
      rw [hrest]
      exact hrestkey
    refine tryGet_full_of_slot resolve cachegen hi hs ?_
    rw [ih (cs s) key (pos + 1) (hslot.rootCanon (slot_ne_sixteen hs hlt)) hrestkey'
      (by rw [hrest]; omega), hrest]

theorem readsWith_succ {fuel : Nat} (ih : ReadsWith resolve cachegen fuel) :
    ReadsWith resolve cachegen (fuel + 1) := by
  intro n key pos hn hkey hlen
  rcases hn with rfl | hn
  · rfl
  · cases n with
    | short nkey val f => exact readsWith_short resolve cachegen ih hn hkey hlen
    | full cs f => exact readsWith_full resolve cachegen ih hn hkey hlen
    | nil | hash _ | value _ => exact hn.elim

/-- `tryGet` reads a canonical trie's map, given more fuel than the key has nibbles left. -/
theorem readsWith : ∀ fuel, ReadsWith resolve cachegen fuel
  | 0 => fun _ _ _ _ _ hlen => absurd hlen (Nat.not_lt_zero _)
  | fuel + 1 => readsWith_succ resolve cachegen (readsWith fuel)

end Read

/-! ### The refinement -/

/-- `t` is canonical and holds `M`. -/
structure Trie.Holds (t : Trie) (M : KeyMap) : Prop where
  canon : RootCanon t.root
  lookup_eq : lookup t.root = hexKeyMap M

theorem Trie.holds_empty (cachegen : Nat) : (⟨.nil, cachegen⟩ : Trie).Holds (fun _ => none) :=
  ⟨.inl rfl, by rw [hexKeyMap_empty]; rfl⟩

theorem walkFuel_gt {k : List UInt8} (hk : k ≠ []) : k.length < walkFuel k := by
  have := List.length_pos_iff.mpr hk
  rw [walkFuel]
  omega

section Write

variable (resolve : Resolver) {t : Trie} {M : KeyMap}

theorem Trie.tryGet_of_holds (h : t.Holds M) (key : List UInt8) :
    t.tryGet resolve key = (.ok (M key), t) := by
  have hk := keybytesToHex_hexKey key
  have hread := readsWith resolve t.cachegen (walkFuel (keybytesToHex key)) t.root (keybytesToHex key) 0
    h.canon (by rwa [List.drop_zero]) (by rw [List.drop_zero]; exact walkFuel_gt hk.ne_nil)
  rw [Trie.tryGet]
  simp only [hread, List.drop_zero, h.lookup_eq, hexKeyMap_keybytesToHex]
  rfl

theorem Trie.tryDelete_holds (h : t.Holds M) (key : List UInt8) :
    ∃ t', t.tryDelete resolve key = (.ok (), t') ∧ t'.Holds (Function.update M key none) := by
  have hk := keybytesToHex_hexKey key
  obtain ⟨r, hr, hdel⟩ := deletesWith resolve (newFlag t.cachegen) (walkFuel (keybytesToHex key))
    t.root [] (keybytesToHex key) h.canon hk (walkFuel_gt hk.ne_nil)
  refine ⟨{ t with root := r.2 }, ?_, hdel.canon, ?_⟩
  · rw [Trie.tryDelete]
    simp only [hr]
    rfl
  · rw [hdel.lookup_eq, h.lookup_eq, hexKeyMap_update]

theorem Trie.tryUpdate_holds (h : t.Holds M) (key value : List UInt8) :
    ∃ t', t.tryUpdate resolve key value = (.ok (), t') ∧
      t'.Holds (Function.update M key (if value = [] then none else some value)) := by
  by_cases hv : value = []
  · -- an empty value deletes
    subst hv
    rw [if_pos rfl]
    exact Trie.tryDelete_holds resolve h key
  · have hk := keybytesToHex_hexKey key
    obtain ⟨r, hr, hins⟩ := insertsWith resolve (newFlag t.cachegen) hv (walkFuel (keybytesToHex key))
      t.root [] (keybytesToHex key) h.canon hk (walkFuel_gt hk.ne_nil)
    refine ⟨{ t with root := r.2 }, ?_, .inr hins.canon, ?_⟩
    · rw [Trie.tryUpdate, if_pos (fun h0 => hv (List.eq_nil_of_length_eq_zero h0))]
      simp only [hr]
      rfl
    · rw [if_neg hv, hins.lookup_eq, h.lookup_eq, hexKeyMap_update]

/-- Every write succeeds on a canonical trie, and leaves a canonical trie holding the map with the
write made. -/
theorem TrieOp.apply_holds (h : t.Holds M) :
    ∀ op : TrieOp, ∃ t', op.apply resolve t = (.ok (), t') ∧ t'.Holds (op.write M)
  | .update key value => Trie.tryUpdate_holds resolve h key value
  | .delete key => Trie.tryDelete_holds resolve h key

theorem setError_ok (dbErr : Option TrieError) : setError dbErr (.ok ()) = dbErr := by
  cases dbErr <;> rfl

/-- A run of writes from a canonical trie meets no error, and leaves a canonical trie holding the
map with the writes made in order. -/
theorem Trie.writeAll_holds (dbErr : Option TrieError) :
    ∀ (ops : List TrieOp) {t : Trie} {M : KeyMap}, t.Holds M →
      ∃ t', t.writeAll resolve dbErr ops = (dbErr, t') ∧ t'.Holds (ops.foldl TrieOp.write M)
  | [], t, _, h => ⟨t, rfl, h⟩
  | op :: ops, t, M, h => by
      obtain ⟨t1, h1, hh1⟩ := op.apply_holds resolve h
      obtain ⟨t', h', hh'⟩ := Trie.writeAll_holds dbErr ops hh1
      refine ⟨t', ?_, hh'⟩
      rw [Trie.writeAll, h1, setError_ok]
      exact h'

end Write

/-- From the empty trie, with any database, every run of writes meets no error and leaves a
canonical trie, from which `TryGet` of every key answers, without changing the trie, what the last
write under that key left: its value, or nothing after a delete or an empty value. -/
theorem trie_writes_refine_map (resolve : Resolver) (cachegen : Nat) (ops : List TrieOp) :
    ∃ t, (⟨.nil, cachegen⟩ : Trie).writeAll resolve none ops = (none, t) ∧ RootCanon t.root ∧
      ∀ key, t.tryGet resolve key = (.ok (ops.foldl TrieOp.write (fun _ => none) key), t) := by
  obtain ⟨t, hrun, hholds⟩ := Trie.writeAll_holds resolve none ops (Trie.holds_empty cachegen)
  exact ⟨t, hrun, hholds.canon, Trie.tryGet_of_holds resolve hholds⟩

end AuroraChain.Trie
