import AuroraChain.Core.Signer
import AuroraChain.State.Revert
import AuroraChain.Lib.GoSort
/-!
# The asset list of an account

`types.Assets` keeps an account's asset balances in a slice, "in ascending alphabetical order" of
the asset ids' bytes. `indexOf` bisects it with `sort.Search` for the place of an id, and
`AddAsset`, `SubAsset` and `BalanceOf` work at that place: `AddAsset` raises a balance or splices a
new entry in, `SubAsset` lowers a balance that covers the amount and cuts an entry that reaches
zero out, with one branch for the last position and one for the others.

The account model of `core/state` reads this slice as the sorted map `State.Assets`. The lemmas
below make that reading exact: on a slice in id order the entries after each method are the map's
entries after the map's operation (`entries_addAsset`, `subAsset_refines`), so the slice stays
sorted and free of empty entries, and its balances follow a ledger that adds and, when covered,
subtracts (`AssetOp.credit`).

Balances are `*big.Int`s. `AddAsset` keeps the pointer it is given when it adds a new entry, and
`SubAsset` subtracts in place, so the slice aliases its callers' integers. Every caller in
`core/state` passes a fresh `new(big.Int).Set(amount)`, and the model takes balances as values.
-/

namespace AuroraChain.Types

open BigEndian AuroraChain.Core

/-- `types.Asset`, without the `Extens` bytes, which no method of `Assets` reads. -/
structure Asset where
  id : Address
  balance : Int
  deriving DecidableEq, Repr

structure Assets where
  assetList : List Asset
  deriving DecidableEq, Repr

def newAssets : Assets := ⟨[]⟩

namespace Assets

/-- The closure `indexOf` hands to `sort.Search`: is the id at `i` at or after `id`?
`sort.Search` asks it below the length only. -/
def atOrAfter (as : Assets) (id : Address) (i : Nat) : Bool :=
  as.assetList[i]?.any fun a => (compareBytes (addressBytes a.id) (addressBytes id)).isGE

/-- `Assets.indexOf`: where `id` is or should go, and whether it is there. -/
def indexOf (as : Assets) (id : Address) : Nat × Bool :=
  if as.assetList.length = 0 then (0, false)
  else
    let i := GoSort.search (as.atOrAfter id) as.assetList.length
    if h : i < as.assetList.length then
      (i, compareBytes (addressBytes as.assetList[i].id) (addressBytes id) == .eq)
    else (i, false)

def addAsset (as : Assets) (a : Asset) : Assets :=
  match as.indexOf a.id with
  | (i, true) => ⟨as.assetList.modify i fun d => { d with balance := d.balance + a.balance }⟩
  | (i, false) =>
      -- `temp` is copied before `append(as.assetList[:i], a)` overwrites the slot at `i`
      let temp := as.assetList.drop i
      ⟨as.assetList.take i ++ [a] ++ temp⟩

/-- `Assets.SubAsset`. An id that `indexOf` finds is always in range (`indexOf_cases`). -/
def subAsset (as : Assets) (a : Asset) : Bool × Assets :=
  match as.indexOf a.id with
  | (i, true) =>
      match as.assetList[i]? with
      | some dest =>
          if a.balance ≤ dest.balance then
            let balance := dest.balance - a.balance
            let l := as.assetList.set i { dest with balance := balance }
            if balance = 0 then
              if i < l.length - 1 then (true, ⟨l.take i ++ l.drop (i + 1)⟩)
              else (true, ⟨l.take i⟩)
            else (true, ⟨l⟩)
          else (false, as)
      | none => (false, as)
  | (_, false) => (false, as)

def balanceOf (as : Assets) (id : Address) : Int :=
  match as.indexOf id with
  | (i, true) => (as.assetList[i]?.map (·.balance)).getD 0
  | (_, false) => 0

end Assets

/-! ### Id bytes and id order -/

theorem compareBytes_addressBytes (x y : Address) :
    compareBytes (addressBytes x) (addressBytes y) = compare x.val y.val := by
  have h160 : (2 : Nat) ^ 160 = 256 ^ 20 := by norm_num
  have hx : x.val < 256 ^ 20 := lt_of_lt_of_eq x.isLt h160
  have hy : y.val < 256 ^ 20 := lt_of_lt_of_eq y.isLt h160
  rw [addressBytes, addressBytes, compareBytes_toBytes, Nat.mod_eq_of_lt hx, Nat.mod_eq_of_lt hy]

theorem compareBytes_addressBytes_eq_lt {x y : Address} :
    compareBytes (addressBytes x) (addressBytes y) = .lt ↔ x < y := by
  rw [compareBytes_addressBytes, compare_lt_iff_lt, Fin.lt_def]

theorem compareBytes_addressBytes_eq_eq {x y : Address} :
    compareBytes (addressBytes x) (addressBytes y) = .eq ↔ x = y := by
  rw [compareBytes_addressBytes, compare_eq_iff_eq, Fin.val_inj]

theorem compareBytes_addressBytes_isGE {x y : Address} :
    (compareBytes (addressBytes x) (addressBytes y)).isGE = true ↔ y ≤ x := by
  rw [compareBytes_addressBytes, Ordering.isGE_iff_ne_lt, compare_lt_iff_lt, not_lt,
    Fin.le_iff_val_le_val]

/-! ### The slice as entries of a sorted map -/

/-- Ascending by id bytes, as the comment on `assetList` asks. -/
def SortedByBytes (l : List Asset) : Prop :=
  (l.map fun a => addressBytes a.id).Pairwise fun p q => compareBytes p q = .lt

/-- The slice as the `(id, balance)` entries a `SortedMap` keeps. -/
def entries (l : List Asset) : List (Address × Int) := l.map fun a => (a.id, a.balance)

theorem keys_entries (l : List Asset) : (entries l).map Prod.fst = l.map Asset.id := by
  rw [entries, List.map_map]
  rfl

theorem sortedByBytes_iff {l : List Asset} :
    SortedByBytes l ↔ ((entries l).map Prod.fst).Pairwise (· < ·) := by
  rw [SortedByBytes, keys_entries, List.pairwise_map, List.pairwise_map]
  simp only [compareBytes_addressBytes_eq_lt]

theorem SortedByBytes.id_lt {l : List Asset} (hs : SortedByBytes l) {i j : Nat}
    (hi : i < l.length) (hj : j < l.length) (hij : i < j) : l[i].id < l[j].id := by
  rw [sortedByBytes_iff, keys_entries, List.pairwise_map, List.pairwise_iff_getElem] at hs
  exact hs i j hi hj hij

theorem forall_mem_keys_entries {l : List Asset} {p : Address → Prop} :
    (∀ k ∈ (entries l).map Prod.fst, p k) ↔ ∀ a ∈ l, p a.id := by
  rw [keys_entries, List.forall_mem_map]

theorem sortedByBytes_of_entries {l : List Asset} {m : State.Assets} (hm : entries l = m.entries) :
    SortedByBytes l := by
  rw [sortedByBytes_iff, hm]
  exact m.sorted

theorem entries_append_cons (pre rest : List Asset) (a : Asset) :
    entries (pre ++ a :: rest) = entries pre ++ (a.id, a.balance) :: entries rest := by
  rw [entries, List.map_append, List.map_cons]
  rfl

theorem entries_append (pre post : List Asset) :
    entries (pre ++ post) = entries pre ++ entries post := List.map_append

/-! ### Where `indexOf` points -/

namespace Assets

theorem atOrAfter_iff (as : Assets) (id : Address) {i : Nat} (hi : i < as.assetList.length) :
    as.atOrAfter id i = true ↔ id ≤ as.assetList[i].id := by
  rw [atOrAfter, List.getElem?_eq_getElem hi, Option.any_some, compareBytes_addressBytes_isGE]

theorem atOrAfter_falseThenTrue {as : Assets} (hs : SortedByBytes as.assetList) (id : Address) :
    GoSort.FalseThenTrue (as.atOrAfter id) as.assetList.length := by
  intro i j hij hj hi
  have hi' : i < as.assetList.length := lt_of_le_of_lt hij hj
  rw [atOrAfter_iff as id hi'] at hi
  rw [atOrAfter_iff as id hj]
  rcases hij.lt_or_eq with hlt | rfl
  · exact le_trans hi (hs.id_lt hi' hj hlt).le
  · exact hi

/-- What `indexOf` finds in a sorted slice: the ids below `id` come first, and after them `id`
heads the rest, or sorts below all of it. -/
theorem indexOf_cases {as : Assets} (hs : SortedByBytes as.assetList) (id : Address) :
    ∃ pre post, as.assetList = pre ++ post ∧ (∀ a ∈ pre, a.id < id) ∧
      ((∃ a rest, post = a :: rest ∧ a.id = id ∧ as.indexOf id = (pre.length, true)) ∨
        ((∀ a ∈ post, id < a.id) ∧ as.indexOf id = (pre.length, false))) := by
  obtain ⟨l⟩ := as
  dsimp only at hs
  by_cases hn : l.length = 0
  · refine ⟨[], [], by simpa using hn, by simp, .inr ⟨by simp, ?_⟩⟩
    rw [indexOf, if_pos hn]
    rfl
  obtain ⟨-, hr, hbelow, habove⟩ := GoSort.search_inv (atOrAfter_falseThenTrue hs id)
  set r := GoSort.search (atOrAfter ⟨l⟩ id) l.length with hr_def
  have hindex : indexOf ⟨l⟩ id = if h : r < l.length then
      (r, compareBytes (addressBytes l[r].id) (addressBytes id) == .eq) else (r, false) := by
    rw [indexOf, if_neg hn]
  have hpre : ∀ a ∈ l.take r, a.id < id := by
    intro a ha
    obtain ⟨k, hk, rfl⟩ := List.getElem_of_mem ha
    rw [List.length_take] at hk
    have hkl : k < l.length := lt_of_lt_of_le hk (min_le_right _ _)
    have hf := hbelow k (lt_of_lt_of_le hk (min_le_left _ _))
    rw [List.getElem_take]
    exact not_le.mp fun hle => by
      rw [(atOrAfter_iff ⟨l⟩ id hkl).mpr hle] at hf
      cases hf
  have hlen : (l.take r).length = r := List.length_take_of_le hr
  refine ⟨l.take r, l.drop r, (List.take_append_drop r l).symm, hpre, ?_⟩
  rw [hlen, hindex]
  by_cases hrl : r < l.length
  · have hat : id ≤ l[r].id := (atOrAfter_iff ⟨l⟩ id hrl).mp (habove r le_rfl hrl)
    rw [dif_pos hrl]
    by_cases heq : l[r].id = id
    · refine .inl ⟨l[r], l.drop (r + 1), List.drop_eq_getElem_cons hrl, heq, ?_⟩
      rw [beq_iff_eq.mpr (compareBytes_addressBytes_eq_eq.mpr heq)]
    · refine .inr ⟨fun a ha => ?_, ?_⟩
      · obtain ⟨k, hk, rfl⟩ := List.getElem_of_mem ha
        rw [List.length_drop] at hk
        rw [List.getElem_drop]
        rcases Nat.eq_zero_or_pos k with rfl | hk0
        · exact lt_of_le_of_ne hat (Ne.symm (by simpa using heq))
        · exact lt_of_le_of_lt hat (hs.id_lt hrl (by omega) (by omega))
      · have hne : compareBytes (addressBytes l[r].id) (addressBytes id) ≠ .eq :=
          fun h => heq (compareBytes_addressBytes_eq_eq.mp h)
        rw [beq_eq_false_iff_ne.mpr hne]
  · have hrn : r = l.length := le_antisymm hr (not_lt.mp hrl)
    rw [dif_neg hrl]
    refine .inr ⟨fun a ha => ?_, rfl⟩
    rw [hrn, List.drop_length] at ha
    cases ha

/-! ### The methods at that place -/

theorem modify_append_length (pre rest : List Asset) (a : Asset) (f : Asset → Asset) :
    (pre ++ a :: rest).modify pre.length f = pre ++ f a :: rest := by
  induction pre with
  | nil => exact List.modify_zero_cons f a rest
  | cons b pre ih =>
      rw [List.cons_append, List.length_cons, List.modify_succ_cons, ih, List.cons_append]

theorem getElem?_append_length (pre rest : List Asset) (a : Asset) :
    (pre ++ a :: rest)[pre.length]? = some a := by
  rw [List.getElem?_append_right le_rfl, Nat.sub_self, List.getElem?_cons_zero]

theorem set_append_length (pre rest : List Asset) (a b : Asset) :
    (pre ++ a :: rest).set pre.length b = pre ++ b :: rest := by
  rw [List.set_append_right _ _ le_rfl, Nat.sub_self, List.set_cons_zero]

theorem take_append_drop_length (pre rest : List Asset) (b : Asset) :
    (pre ++ b :: rest).take pre.length ++ (pre ++ b :: rest).drop (pre.length + 1) = pre ++ rest := by
  have hdrop : (pre ++ b :: rest).drop (pre.length + 1) = rest := by
    simp
  rw [List.take_append_length, hdrop]

theorem take_length_of_last (pre rest : List Asset) (b : Asset)
    (hlast : ¬pre.length < (pre ++ b :: rest).length - 1) :
    (pre ++ b :: rest).take pre.length = pre ++ rest := by
  have hrest : rest = [] := by
    rw [List.length_append, List.length_cons] at hlast
    exact List.eq_nil_of_length_eq_zero (by omega)
  rw [List.take_append_length, hrest, List.append_nil]

/-- `SubAsset` at an id `indexOf` finds at `pre.length`: a balance that covers the amount is
lowered, and the entry is cut out when it reaches zero, by either of the two cuts. -/
theorem subAsset_of_found {as : Assets} {a x : Asset} {pre rest : List Asset}
    (hl : as.assetList = pre ++ x :: rest) (hidx : as.indexOf a.id = (pre.length, true)) :
    as.subAsset a =
      if a.balance ≤ x.balance then
        (true, if x.balance - a.balance = 0 then ⟨pre ++ rest⟩
          else ⟨pre ++ { x with balance := x.balance - a.balance } :: rest⟩)
      else (false, as) := by
  have hget : as.assetList[pre.length]? = some x := by
    rw [hl, getElem?_append_length]
  rw [subAsset, hidx]
  dsimp only
  rw [hget]
  dsimp only
  split_ifs with hle hzero hlast
  · rw [hl, set_append_length, take_append_drop_length]
  · rw [hl, set_append_length, take_length_of_last _ _ _ (by rwa [hl, set_append_length] at hlast)]
  · rw [hl, set_append_length]
  · rfl

theorem subAsset_eq_false_or (as : Assets) (a : Asset) :
    as.subAsset a = (false, as) ∨ (as.subAsset a).1 = true := by
  rw [subAsset]
  split
  · split
    · split_ifs
      · right
        dsimp only
        split_ifs <;> rfl
      · exact .inl rfl
    · exact .inl rfl
  · exact .inl rfl

theorem subAsset_snd_of_fst_eq_false (as : Assets) (a : Asset) (h : (as.subAsset a).1 = false) :
    (as.subAsset a).2 = as := by
  rcases subAsset_eq_false_or as a with heq | htrue
  · rw [heq]
  · rw [htrue] at h
    cases h

end Assets

end AuroraChain.Types

/-! ### Balances of the sorted map -/

namespace AuroraChain.State.Assets

/-- No entry of the map holds zero or less. -/
def Positive (m : Assets) : Prop := ∀ e ∈ m.entries, 0 < e.2

theorem Positive.addAsset {m : Assets} (hm : m.Positive) (id : Address) {amount : Int}
    (ha : 0 < amount) : (m.addAsset id amount).Positive := by
  intro e he
  cases hget : m.get? id with
  | none =>
      simp only [Assets.addAsset, hget] at he
      rcases (SortedMap.mem_insert_entries _ _ _ _).mp he with rfl | ⟨-, he⟩
      · exact ha
      · exact hm e he
  | some b =>
      simp only [Assets.addAsset, hget] at he
      rcases (SortedMap.mem_insert_entries _ _ _ _).mp he with rfl | ⟨-, he⟩
      · have hb : 0 < b := hm (id, b) ((SortedMap.mem_entries_iff _ _ _).mpr hget)
        show 0 < b + amount
        omega
      · exact hm e he

theorem Positive.subAsset {m : Assets} (hm : m.Positive) (id : Address) (amount : Int) :
    (m.subAsset id amount).2.Positive := by
  intro e he
  cases hget : m.get? id with
  | none =>
      simp only [Assets.subAsset, hget] at he
      exact hm e he
  | some b =>
      by_cases hle : amount ≤ b
      · rw [subAsset_of_get hget hle] at he
        split_ifs at he with hzero
        · exact hm e ((SortedMap.mem_erase_entries _ _ _).mp he).2
        · rcases (SortedMap.mem_insert_entries _ _ _ _).mp he with rfl | ⟨-, he⟩
          · show 0 < b - amount
            omega
          · exact hm e he
      · simp only [Assets.subAsset, hget, if_neg hle] at he
        exact hm e he

theorem balanceOf_addAsset (m : Assets) (id : Address) (amount : Int) :
    (m.addAsset id amount).balanceOf = Function.update m.balanceOf id (m.balanceOf id + amount) := by
  funext x
  rw [Function.update_apply]
  cases hget : m.get? id with
  | none => by_cases hx : x = id <;> simp [addAsset, balanceOf, hget, hx]
  | some b => by_cases hx : x = id <;> simp [addAsset, balanceOf, hget, hx]

theorem subAsset_fst_eq_true_iff (m : Assets) (id : Address) (amount : Int) :
    (m.subAsset id amount).1 = true ↔ ∃ b, m.get? id = some b ∧ amount ≤ b := by
  cases hget : m.get? id with
  | none => simp [subAsset, hget]
  | some b => by_cases hle : amount ≤ b <;> simp [subAsset, hget, hle]

/-- A subtraction the balance covers lowers it, one it does not cover changes nothing. An absent
asset has balance zero, and only a zero amount is covered there. -/
theorem balanceOf_subAsset (m : Assets) (id : Address) {amount : Int} (hamt : 0 ≤ amount) :
    (m.subAsset id amount).2.balanceOf =
      if amount ≤ m.balanceOf id then Function.update m.balanceOf id (m.balanceOf id - amount)
      else m.balanceOf := by
  cases hget : m.get? id with
  | none =>
      have hbal : m.balanceOf id = 0 := by simp [balanceOf, hget]
      simp only [subAsset, hget]
      split_ifs with hle
      · have hzero : amount = 0 := by omega
        rw [hzero, sub_zero, Function.update_eq_self]
      · rfl
  | some b =>
      have hbal : m.balanceOf id = b := by simp [balanceOf, hget]
      by_cases hle : amount ≤ b
      · rw [hbal, if_pos hle, subAsset_of_get hget hle]
        funext x
        rw [Function.update_apply]
        by_cases hx : x = id
        · subst hx
          rw [if_pos rfl]
          split_ifs with hzero <;> simp [balanceOf, hzero]
        · split_ifs <;> simp [balanceOf, hx]
      · rw [if_neg (hbal ▸ hle)]
        simp [subAsset, hget, hle]

end AuroraChain.State.Assets

/-! ### The slice refines the map -/

namespace AuroraChain.Types

namespace Assets

/-- The sorted map a sorted slice stands for. -/
def toMap (as : Assets) (hs : SortedByBytes as.assetList) : State.Assets :=
  ⟨entries as.assetList, sortedByBytes_iff.mp hs⟩

section Refinement

variable {as : Assets} {m : State.Assets}

theorem get?_of_found (hm : entries as.assetList = m.entries) {pre rest : List Asset} {x : Asset}
    {id : Address} (hl : as.assetList = pre ++ x :: rest) (hpre : ∀ a ∈ pre, a.id < id)
    (hx : x.id = id) : m.get? id = some x.balance := by
  rw [SortedMap.get?, ← hm, hl, entries_append_cons, hx,
    SortedMap.lookupRaw_append_of_lt (forall_mem_keys_entries.mpr hpre),
    SortedMap.lookupRaw_cons_self]

theorem get?_of_missing (hm : entries as.assetList = m.entries) {pre post : List Asset}
    {id : Address} (hl : as.assetList = pre ++ post) (hpre : ∀ a ∈ pre, a.id < id)
    (hpost : ∀ a ∈ post, id < a.id) : m.get? id = none := by
  rw [SortedMap.get?, ← hm, hl, entries_append,
    SortedMap.lookupRaw_append_of_lt (forall_mem_keys_entries.mpr hpre),
    SortedMap.lookupRaw_eq_none_of_lt (forall_mem_keys_entries.mpr hpost)]

theorem entries_addAsset (hm : entries as.assetList = m.entries) (a : Asset) :
    entries (as.addAsset a).assetList = (m.addAsset a.id a.balance).entries := by
  obtain ⟨pre, post, hl, hpre, ⟨x, rest, rfl, hx, hidx⟩ | ⟨hpost, hidx⟩⟩ :=
    indexOf_cases (sortedByBytes_of_entries hm) a.id
  · -- held at `pre.length`: the balance there grows
    rw [addAsset, hidx, State.Assets.addAsset, get?_of_found hm hl hpre hx]
    dsimp only
    rw [SortedMap.entries_insert, ← hm, hl, modify_append_length, entries_append_cons,
      entries_append_cons, SortedMap.insertRaw_append_of_lt (forall_mem_keys_entries.mpr hpre), hx,
      SortedMap.insertRaw_cons_self]
  · -- missing: the new entry goes in at `pre.length`, in front of the larger ids
    rw [addAsset, hidx, State.Assets.addAsset, get?_of_missing hm hl hpre hpost]
    dsimp only
    rw [SortedMap.entries_insert, ← hm, hl, List.take_append_length, List.drop_left]
    simp only [entries_append]
    rw [SortedMap.insertRaw_append_of_lt (forall_mem_keys_entries.mpr hpre),
      SortedMap.insertRaw_of_lt (forall_mem_keys_entries.mpr hpost), List.append_assoc]
    rfl

theorem subAsset_refines (hm : entries as.assetList = m.entries) (a : Asset) :
    (as.subAsset a).1 = (m.subAsset a.id a.balance).1 ∧
      entries (as.subAsset a).2.assetList = (m.subAsset a.id a.balance).2.entries := by
  obtain ⟨pre, post, hl, hpre, ⟨x, rest, rfl, hx, hidx⟩ | ⟨hpost, hidx⟩⟩ :=
    indexOf_cases (sortedByBytes_of_entries hm) a.id
  · have hget := get?_of_found hm hl hpre hx
    rw [subAsset_of_found hl hidx]
    by_cases hle : a.balance ≤ x.balance
    · rw [if_pos hle, State.Assets.subAsset_of_get hget hle]
      refine ⟨rfl, ?_⟩
      -- the entry is cut out at zero, or its balance lowered in place
      split_ifs with hzero
      · rw [SortedMap.entries_erase, ← hm, hl, entries_append_cons, entries_append, hx,
          SortedMap.eraseRaw_append_of_lt (forall_mem_keys_entries.mpr hpre),
          SortedMap.eraseRaw_cons_self]
      · rw [SortedMap.entries_insert, ← hm, hl, entries_append_cons, entries_append_cons,
          SortedMap.insertRaw_append_of_lt (forall_mem_keys_entries.mpr hpre), hx,
          SortedMap.insertRaw_cons_self]
    · rw [if_neg hle, State.Assets.subAsset, hget]
      dsimp only
      rw [if_neg hle]
      exact ⟨rfl, hm⟩
  · rw [subAsset, hidx, State.Assets.subAsset, get?_of_missing hm hl hpre hpost]
    exact ⟨rfl, hm⟩

theorem balanceOf_refines (hm : entries as.assetList = m.entries) (id : Address) :
    as.balanceOf id = m.balanceOf id := by
  obtain ⟨pre, post, hl, hpre, ⟨x, rest, rfl, hx, hidx⟩ | ⟨hpost, hidx⟩⟩ :=
    indexOf_cases (sortedByBytes_of_entries hm) id
  · rw [balanceOf, hidx, State.Assets.balanceOf, get?_of_found hm hl hpre hx]
    dsimp only
    rw [hl, getElem?_append_length]
    rfl
  · rw [balanceOf, hidx, State.Assets.balanceOf, get?_of_missing hm hl hpre hpost]
    rfl

end Refinement

end Assets

end AuroraChain.Types

/-! ### Runs of additions and subtractions -/

namespace AuroraChain.Types

/-- A slice as `Assets` keeps it: ascending by id bytes, with no entry at zero or below. -/
structure Valid (as : Assets) : Prop where
  sorted : SortedByBytes as.assetList
  pos : ∀ a ∈ as.assetList, 0 < a.balance

theorem valid_newAssets : Valid newAssets := ⟨List.Pairwise.nil, fun _ h => absurd h List.not_mem_nil⟩

/-- The calls a slice goes through: `AddAsset` and `SubAsset`. -/
inductive AssetOp
  | add (a : Asset)
  | sub (a : Asset)
  deriving DecidableEq, Repr

namespace AssetOp

/-- The amounts the callers pass: something to add, nothing or more to subtract. -/
def Allowed : AssetOp → Prop
  | .add a => 0 < a.balance
  | .sub a => 0 ≤ a.balance

instance : DecidablePred Allowed
  | .add a => inferInstanceAs (Decidable (0 < a.balance))
  | .sub a => inferInstanceAs (Decidable (0 ≤ a.balance))

def apply (as : Assets) : AssetOp → Assets
  | .add a => as.addAsset a
  | .sub a => (as.subAsset a).2

/-- What the slice is for: a ledger of one balance per asset id, zero where none is held, that an
addition raises and a subtraction the balance covers lowers. -/
def credit (bal : Address → Int) : AssetOp → Address → Int
  | .add a => Function.update bal a.id (bal a.id + a.balance)
  | .sub a => if a.balance ≤ bal a.id then Function.update bal a.id (bal a.id - a.balance) else bal

end AssetOp

def runAssets (as : Assets) (ops : List AssetOp) : Assets := ops.foldl AssetOp.apply as

def runLedger (bal : Address → Int) (ops : List AssetOp) : Address → Int :=
  ops.foldl AssetOp.credit bal

theorem forall_mem_entries {l : List Asset} {p : Int → Prop} :
    (∀ e ∈ entries l, p e.2) ↔ ∀ a ∈ l, p a.balance := by
  rw [entries, List.forall_mem_map]

theorem Valid.of_entries {l : List Asset} {m : State.Assets} (hm : entries l = m.entries)
    (hpos : m.Positive) : Valid ⟨l⟩ :=
  ⟨sortedByBytes_of_entries hm, forall_mem_entries.mp (hm ▸ hpos)⟩

theorem Valid.apply {as : Assets} (h : Valid as) {op : AssetOp} (hop : op.Allowed) :
    Valid (op.apply as) ∧ (op.apply as).balanceOf = op.credit as.balanceOf := by
  set m := as.toMap h.sorted
  have hm : entries as.assetList = m.entries := rfl
  have hpos : m.Positive := forall_mem_entries.mpr h.pos
  have hbal : as.balanceOf = m.balanceOf := funext (Assets.balanceOf_refines hm)
  cases op with
  | add a =>
      have hm' := Assets.entries_addAsset hm a
      refine ⟨Valid.of_entries hm' (hpos.addAsset a.id hop), ?_⟩
      rw [AssetOp.apply, AssetOp.credit, hbal, ← State.Assets.balanceOf_addAsset]
      exact funext (Assets.balanceOf_refines hm')
  | sub a =>
      obtain ⟨-, hm'⟩ := Assets.subAsset_refines hm a
      refine ⟨Valid.of_entries hm' (hpos.subAsset a.id a.balance), ?_⟩
      rw [AssetOp.apply, AssetOp.credit, hbal, ← State.Assets.balanceOf_subAsset m a.id hop]
      exact funext (Assets.balanceOf_refines hm')

theorem Valid.run {as : Assets} (h : Valid as) {ops : List AssetOp}
    (hops : ∀ op ∈ ops, op.Allowed) :
    Valid (runAssets as ops) ∧ (runAssets as ops).balanceOf = runLedger as.balanceOf ops := by
  induction ops generalizing as with
  | nil => exact ⟨h, rfl⟩
  | cons op ops ih =>
      obtain ⟨hvalid, hbal⟩ := h.apply (hops op List.mem_cons_self)
      have hrest := ih hvalid fun o ho => hops o (List.mem_cons_of_mem op ho)
      rw [runAssets, List.foldl_cons, runLedger, List.foldl_cons, ← hbal]
      exact hrest

/-- `SubAsset` on a sorted slice fails exactly when the id is absent or holds less than the
amount. -/
theorem subAsset_eq_false_iff {as : Assets} (hs : SortedByBytes as.assetList) (a : Asset) :
    (as.subAsset a).1 = false ↔
      (∀ x ∈ as.assetList, x.id ≠ a.id) ∨
        ∃ x ∈ as.assetList, x.id = a.id ∧ x.balance < a.balance := by
  set m := as.toMap hs
  have hm : entries as.assetList = m.entries := rfl
  have hheld : ∀ x ∈ as.assetList, m.get? x.id = some x.balance := fun x hx =>
    (SortedMap.mem_entries_iff m x.id x.balance).mp (hm ▸ List.mem_map_of_mem hx)
  rw [(Assets.subAsset_refines hm a).1, Bool.eq_false_iff, ne_eq,
    State.Assets.subAsset_fst_eq_true_iff]
  constructor
  · intro hnot
    by_cases hex : ∃ x ∈ as.assetList, x.id = a.id
    · obtain ⟨x, hx, hid⟩ := hex
      exact .inr ⟨x, hx, hid, lt_of_not_ge fun hle => hnot ⟨x.balance, hid ▸ hheld x hx, hle⟩⟩
    · exact .inl fun x hx hid => hex ⟨x, hx, hid⟩
  · rintro (habsent | ⟨x, hx, hid, hlt⟩) ⟨b, hget, hle⟩
    · have hmem : (a.id, b) ∈ entries as.assetList :=
        hm ▸ (SortedMap.mem_entries_iff m a.id b).mpr hget
      obtain ⟨y, hy, hyeq⟩ := List.mem_map.mp hmem
      exact habsent y hy (Prod.mk.inj hyeq).1
    · have hsame := hheld x hx
      rw [hid, hget, Option.some.injEq] at hsame
      rw [hsame] at hle
      exact absurd hlt (not_lt.mpr hle)

theorem assets_sorted_finite_map (as : Assets) (h : Valid as) (ops : List AssetOp)
    (hops : ∀ op ∈ ops, op.Allowed) :
    Valid (runAssets as ops) ∧
      (∀ id, (runAssets as ops).balanceOf id = runLedger as.balanceOf ops id) ∧
      ∀ a : Asset,
        (((runAssets as ops).subAsset a).1 = false ↔
          (∀ x ∈ (runAssets as ops).assetList, x.id ≠ a.id) ∨
            ∃ x ∈ (runAssets as ops).assetList, x.id = a.id ∧ x.balance < a.balance) ∧
        (((runAssets as ops).subAsset a).1 = false →
          ((runAssets as ops).subAsset a).2 = runAssets as ops) := by
  obtain ⟨hvalid, hbal⟩ := h.run hops
  refine ⟨hvalid, fun id => congrFun hbal id, fun a => ⟨?_, ?_⟩⟩
  · exact subAsset_eq_false_iff hvalid.sorted a
  · exact Assets.subAsset_snd_of_fst_eq_false _ a

theorem assets_sorted_finite_map_add_sub :
    Valid newAssets ∧
      (∀ op ∈ [AssetOp.add ⟨7, 5⟩, .sub ⟨7, 2⟩, .add ⟨3, 1⟩, .sub ⟨7, 3⟩], op.Allowed) ∧
      (Valid (runAssets newAssets [.add ⟨7, 5⟩, .sub ⟨7, 2⟩, .add ⟨3, 1⟩, .sub ⟨7, 3⟩]) ∧
        (∀ id, (runAssets newAssets [.add ⟨7, 5⟩, .sub ⟨7, 2⟩, .add ⟨3, 1⟩, .sub ⟨7, 3⟩]).balanceOf id =
          runLedger newAssets.balanceOf [.add ⟨7, 5⟩, .sub ⟨7, 2⟩, .add ⟨3, 1⟩, .sub ⟨7, 3⟩] id) ∧
        ∀ a : Asset,
          (((runAssets newAssets [.add ⟨7, 5⟩, .sub ⟨7, 2⟩, .add ⟨3, 1⟩, .sub ⟨7, 3⟩]).subAsset a).1 =
              false ↔
            (∀ x ∈ (runAssets newAssets [.add ⟨7, 5⟩, .sub ⟨7, 2⟩, .add ⟨3, 1⟩, .sub ⟨7, 3⟩]).assetList,
                x.id ≠ a.id) ∨
              ∃ x ∈ (runAssets newAssets [.add ⟨7, 5⟩, .sub ⟨7, 2⟩, .add ⟨3, 1⟩, .sub ⟨7, 3⟩]).assetList,
                x.id = a.id ∧ x.balance < a.balance) ∧
          (((runAssets newAssets [.add ⟨7, 5⟩, .sub ⟨7, 2⟩, .add ⟨3, 1⟩, .sub ⟨7, 3⟩]).subAsset a).1 =
              false →
            ((runAssets newAssets [.add ⟨7, 5⟩, .sub ⟨7, 2⟩, .add ⟨3, 1⟩, .sub ⟨7, 3⟩]).subAsset a).2 =
              runAssets newAssets [.add ⟨7, 5⟩, .sub ⟨7, 2⟩, .add ⟨3, 1⟩, .sub ⟨7, 3⟩])) :=
  ⟨valid_newAssets, by decide,
    assets_sorted_finite_map newAssets valid_newAssets _ (by decide)⟩

end AuroraChain.Types
