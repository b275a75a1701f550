import AuroraChain.Core.Miner
/-!
# Draining the miner's iterator

`TestTransactionPriceNonceSort` reads a `TransactionsByPriceAndNonce` with `Peek` until it returns
nil, calling `Shift` after each transaction. `NewTransactionsByPriceAndNonce` puts the first
transaction of each sender among the heads and the rest in the sender's waiting list, so that loop
yields each transaction once. `NewTransactionsByPriceAndNonce2`, which the miner uses, puts every
transaction among the heads *and* files every transaction in its sender's waiting list: `Shift`
then brings each one back, and the loop yields every transaction twice (`peekShift_new2_twice`).

The transactions still to come are the heads and the waiting lists (`left`). `Shift` yields the
first head and keeps the rest (`shift_left`); while a sender with waiting transactions has a head
(`Fed`), the loop ends only when nothing is left (`left_eq_nil_of_peek_eq_none`).
-/

namespace AuroraChain.Core
namespace TransactionsByPriceAndNonce

open scoped List

variable (codec : MessageCodec)

/-- The loop of `TestTransactionPriceNonceSort`: `for tx := txset.Peek(); tx != nil; tx =
txset.Peek()`, appending `tx` and calling `Shift`. The fuel bounds the iterations. -/
def peekShift : Nat → TransactionsByPriceAndNonce → Except GoPanic (List Transaction)
  | 0, _ => .ok []
  | fuel + 1, t =>
      match t.peek with
      | none => .ok []
      | some tx => (t.shift codec).bind fun t' => (peekShift fuel t').map (tx :: ·)

/-- The waiting transactions of every sender, in key order. -/
def waiting (txs : SortedMap Address (List Transaction)) : List Transaction :=
  (txs.entries.map Prod.snd).flatten

/-- The transactions the iterator still holds: the heads, then the waiting lists. -/
def left (t : TransactionsByPriceAndNonce) : List Transaction :=
  t.heads.toList ++ waiting t.txs

/-- What `Shift` needs to reach every waiting transaction: each waiting list holds transactions of
its own sender, and a sender with waiting transactions has one among the heads. -/
structure Fed (t : TransactionsByPriceAndNonce) : Prop where
  keyed : ∀ e ∈ t.txs.entries, ∀ x ∈ e.2, senderOf codec x = e.1
  covered : ∀ e ∈ t.txs.entries, e.2 ≠ [] → ∃ h ∈ t.heads.toList, senderOf codec h = e.1

variable {codec}

/-! ### The waiting lists -/

theorem waiting_insert (txs : SortedMap Address (List Transaction)) (acc : Address)
    (l : List Transaction) : (waiting (txs.insert acc l)).Perm (l ++ waiting (txs.erase acc)) := by
  have hperm := ((txs.perm_insert_erase acc l).map Prod.snd).flatten
  simpa only [waiting, List.map_cons, List.flatten_cons] using hperm

theorem waiting_of_get? {txs : SortedMap Address (List Transaction)} {acc : Address}
    {l : List Transaction} (h : txs.get? acc = some l) :
    (waiting txs).Perm (l ++ waiting (txs.erase acc)) := by
  have hperm := ((txs.perm_erase_of_get? h).map Prod.snd).flatten
  simpa only [waiting, List.map_cons, List.flatten_cons] using hperm

/-- One round of `NewTransactionsByPriceAndNonce2`'s filing loop, `txs[from] = append(txs[from],
tx)`, adds `tx` to the waiting transactions. -/
theorem waiting_append (txs : SortedMap Address (List Transaction)) (acc : Address)
    (tx : Transaction) :
    (waiting (txs.insert acc ((txs.get? acc).getD [] ++ [tx]))).Perm (waiting txs ++ [tx]) := by
  refine (waiting_insert txs acc _).trans ?_
  cases hget : txs.get? acc with
  | none =>
      rw [txs.erase_of_get?_eq_none hget, Option.getD_none, List.nil_append]
      exact List.perm_append_comm
  | some l =>
      rw [Option.getD_some, List.append_assoc]
      calc l ++ ([tx] ++ waiting (txs.erase acc))
          _ ~ l ++ (waiting (txs.erase acc) ++ [tx]) := List.perm_append_comm.append_left l
          _ = (l ++ waiting (txs.erase acc)) ++ [tx] := (List.append_assoc _ _ _).symm
          _ ~ waiting txs ++ [tx] := (waiting_of_get? hget).symm.append_right [tx]

/-! ### One `Shift` -/

theorem heads_toList_of_peek {t : TransactionsByPriceAndNonce} {tx : Transaction}
    (h : t.peek = some tx) : t.heads.toList = tx :: t.heads.toList.tail := by
  have h0 : t.heads.toList[0]? = some tx := by
    rw [Array.getElem?_toList]
    exact h
  cases hl : t.heads.toList with
  | nil =>
      rw [hl] at h0
      cases h0
  | cons y rest =>
      rw [hl, List.getElem?_cons_zero, Option.some.injEq] at h0
      rw [h0, List.tail_cons]

theorem pop_eq_of_peek {t t' : TransactionsByPriceAndNonce} {tx : Transaction}
    (hpeek : t.peek = some tx) (h : t.pop = .ok t') :
    ∃ heads, GoHeap.pop priceLess t.heads = some (tx, heads) ∧ t' = { t with heads } := by
  obtain ⟨y, heads, hpop, rfl⟩ := pop_eq h
  have h0 := GoHeap.pop_fst priceLess hpop
  rw [show t.heads[0]? = some tx from hpeek, Option.some.injEq] at h0
  subst h0
  exact ⟨heads, hpop, rfl⟩

theorem fix_setIfInBounds_perm {t : TransactionsByPriceAndNonce} {tx : Transaction}
    (hpeek : t.peek = some tx) (x : Transaction) :
    (GoHeap.fix priceLess (t.heads.setIfInBounds 0 x) 0).toList.Perm (x :: t.heads.toList.tail) := by
  have hfix := Array.perm_iff_toList_perm.mp (GoHeap.fix_perm priceLess (t.heads.setIfInBounds 0 x) 0)
  rw [Array.toList_setIfInBounds, heads_toList_of_peek hpeek, List.set_cons_zero] at hfix
  exact hfix

theorem shift_left {t t' : TransactionsByPriceAndNonce} {tx : Transaction} (hpeek : t.peek = some tx)
    (hs : t.shift codec = .ok t') : (tx :: left t').Perm (left t) := by
  have hheads := heads_toList_of_peek hpeek
  obtain ⟨head, hhead, ⟨x, rest, hw, rfl⟩ | ⟨-, hpop⟩⟩ := shift_cases hs
  · obtain rfl : tx = head := Option.some.inj (hpeek.symm.trans hhead)
    rw [left, left, hheads]
    calc tx :: ((GoHeap.fix priceLess (t.heads.setIfInBounds 0 x) 0).toList ++
            waiting (t.txs.insert (senderOf codec tx) rest))
        _ ~ tx :: ((x :: t.heads.toList.tail) ++ (rest ++ waiting (t.txs.erase (senderOf codec tx)))) :=
          ((fix_setIfInBounds_perm hpeek x).append (waiting_insert _ _ _)).cons tx
        _ ~ tx :: (t.heads.toList.tail ++ ((x :: rest) ++ waiting (t.txs.erase (senderOf codec tx)))) := by
          simpa only [List.cons_append, List.append_assoc] using (List.perm_middle.symm).cons tx
        _ ~ (tx :: t.heads.toList.tail) ++ waiting t.txs :=
          ((waiting_of_get? hw).symm.append_left _).cons tx
  · obtain ⟨heads, hheap, rfl⟩ := pop_eq_of_peek hpeek hpop
    have hperm := Array.perm_iff_toList_perm.mp (GoHeap.pop_perm priceLess hheap)
    rw [Array.toList_push] at hperm
    calc tx :: (heads.toList ++ waiting t.txs)
        _ ~ (heads.toList ++ [tx]) ++ waiting t.txs := by
          simpa only [List.append_assoc, List.singleton_append] using List.perm_middle.symm
        _ ~ t.heads.toList ++ waiting t.txs := hperm.append_right _

theorem Fed.shift {t t' : TransactionsByPriceAndNonce} (hfed : Fed codec t)
    (hs : t.shift codec = .ok t') : Fed codec t' := by
  obtain ⟨tx, hhead, ⟨x, rest, hw, rfl⟩ | ⟨hw, hpop⟩⟩ := shift_cases hs
  · have hheads := heads_toList_of_peek hhead
    have hwe := (SortedMap.mem_entries_iff _ _ _).mpr hw
    have hx : senderOf codec x = senderOf codec tx := hfed.keyed _ hwe x List.mem_cons_self
    have hfix := fix_setIfInBounds_perm hhead x
    refine ⟨fun e he y hy => ?_, fun e he hne => ?_⟩
    · rcases (SortedMap.mem_insert_entries _ _ _ e).mp he with rfl | ⟨_, he⟩
      · exact hfed.keyed _ hwe y (List.mem_cons_of_mem _ hy)
      · exact hfed.keyed e he y hy
    · rcases (SortedMap.mem_insert_entries _ _ _ e).mp he with rfl | ⟨hk, he⟩
      · exact ⟨x, hfix.mem_iff.mpr List.mem_cons_self, hx⟩
      · obtain ⟨h, hmem, hsend⟩ := hfed.covered e he hne
        rw [hheads] at hmem
        rcases List.mem_cons.mp hmem with rfl | hmem
        · exact absurd hsend.symm hk
        · exact ⟨h, hfix.mem_iff.mpr (List.mem_cons_of_mem _ hmem), hsend⟩
  · -- popped: the sender of `tx` has no waiting transaction left
    obtain ⟨heads, hheap, rfl⟩ := pop_eq_of_peek hhead hpop
    refine ⟨hfed.keyed, fun e he hne => ?_⟩
    obtain ⟨h, hmem, hsend⟩ := hfed.covered e he hne
    have hk : e.1 ≠ senderOf codec tx := by
      rintro hk
      obtain ⟨a, l⟩ := e
      obtain ⟨z, zs, rfl⟩ := List.exists_cons_of_ne_nil hne
      exact hw z zs (hk ▸ (SortedMap.mem_entries_iff _ _ _).mp he)
    have hmem' := (GoHeap.pop_perm priceLess hheap).mem_iff.mpr (Array.mem_toList_iff.mp hmem)
    rcases Array.mem_push.mp hmem' with hmem' | rfl
    · exact ⟨h, Array.mem_toList_iff.mpr hmem', hsend⟩
    · exact absurd hsend.symm hk

theorem left_eq_nil_of_peek_eq_none {t : TransactionsByPriceAndNonce} (hfed : Fed codec t)
    (h : t.peek = none) : left t = [] := by
  have hheads : t.heads.toList = [] := by
    rw [peek, Array.getElem?_eq_none_iff] at h
    exact Array.toList_eq_nil_iff.mpr (Array.size_eq_zero_iff.mp (by omega))
  have hwait : waiting t.txs = [] := by
    rw [waiting, List.flatten_eq_nil_iff]
    intro l hl
    obtain ⟨e, he, rfl⟩ := List.mem_map.mp hl
    by_contra hne
    obtain ⟨h, hmem, _⟩ := hfed.covered e he hne
    rw [hheads] at hmem
    cases hmem
  rw [left, hheads, hwait, List.append_nil]

/-! ### The whole loop -/

/-- With more fuel than transactions, the loop over a fed iterator ends and yields exactly what
the iterator holds. The induction is on the fuel; `shift_count` spends one unit per round. -/
theorem peekShift_perm : ∀ (fuel : Nat) (t : TransactionsByPriceAndNonce), Fed codec t →
    t.count < fuel → ∃ ys, peekShift codec fuel t = .ok ys ∧ ys.Perm (left t) := by
  intro fuel
  induction fuel with
  | zero =>
      intro t _ hfuel
      omega
  | succ fuel ih =>
      intro t hfed hfuel
      cases hpeek : t.peek with
      | none =>
          refine ⟨[], by rw [peekShift, hpeek], ?_⟩
          rw [left_eq_nil_of_peek_eq_none hfed hpeek]
      | some tx =>
          obtain ⟨t', hs⟩ : ∃ t', t.shift codec = .ok t' := shift_ok_of_peek hpeek
          have hcount := shift_count hs
          obtain ⟨ys, hys, hperm⟩ := ih t' (hfed.shift hs) (by omega)
          refine ⟨tx :: ys, ?_, (hperm.cons tx).trans (shift_left hpeek hs)⟩
          rw [peekShift, hpeek]
          simp only [hs, hys, Except.bind, Except.map]

/-! ### `NewTransactionsByPriceAndNonce2` -/

/-- The filing loop of `NewTransactionsByPriceAndNonce2` adds what it files to the waiting
transactions. -/
theorem waiting_foldl : ∀ (txs : List Transaction) (m : SortedMap Address (List Transaction)),
    (waiting (txs.foldl (fun txs tx => txs.insert (senderOf codec tx)
        ((txs.get? (senderOf codec tx)).getD [] ++ [tx])) m)).Perm (waiting m ++ txs) := by
  intro txs
  induction txs with
  | nil =>
      intro m
      rw [List.foldl_nil, List.append_nil]
  | cons tx txs ih =>
      intro m
      rw [List.foldl_cons]
      refine (ih _).trans ?_
      calc waiting (m.insert (senderOf codec tx) ((m.get? (senderOf codec tx)).getD [] ++ [tx])) ++ txs
          _ ~ (waiting m ++ [tx]) ++ txs := (waiting_append _ _ _).append_right txs
          _ = waiting m ++ tx :: txs := by rw [List.append_assoc, List.singleton_append]

/-- The filing loop files each transaction under its own sender. -/
theorem keyed_foldl (txs : List Transaction) (m : SortedMap Address (List Transaction))
    (hm : ∀ e ∈ m.entries, ∀ x ∈ e.2, senderOf codec x = e.1) :
    ∀ e ∈ (txs.foldl (fun txs tx => txs.insert (senderOf codec tx)
        ((txs.get? (senderOf codec tx)).getD [] ++ [tx])) m).entries, ∀ x ∈ e.2,
      senderOf codec x = e.1 := by
  intro e he x hx
  rcases mem_foldl_file txs m e.1 e.2 ((SortedMap.mem_entries_iff _ _ _).mp he) x hx with
    ⟨l₀, h₀, hx₀⟩ | ⟨-, hsend⟩
  · exact hm (e.1, l₀) ((SortedMap.mem_entries_iff _ _ _).mpr h₀) x hx₀
  · exact hsend

theorem new2_left (price : List Transaction) : (left (new2 codec price)).Perm (price ++ price) := by
  have hwait := @waiting_foldl codec
    (price.insertionSort fun a b => a.accountNonce ≤ b.accountNonce) ∅
  rw [show waiting (∅ : SortedMap Address (List Transaction)) = [] from rfl, List.nil_append] at hwait
  exact (hwait.trans (List.perm_insertionSort _ price)).append_left price

theorem new2_fed (price : List Transaction) : Fed codec (new2 codec price) := by
  have hkeyed := @keyed_foldl codec
    (price.insertionSort fun a b => a.accountNonce ≤ b.accountNonce) ∅ (fun _ he => by cases he)
  refine ⟨hkeyed, fun e he hne => ?_⟩
  obtain ⟨x, hx⟩ := List.exists_mem_of_ne_nil e.2 hne
  have hwait : x ∈ waiting (new2 codec price).txs :=
    List.mem_flatten.mpr ⟨e.2, List.mem_map_of_mem he, hx⟩
  have hleft : x ∈ left (new2 codec price) := List.mem_append_right _ hwait
  refine ⟨x, ?_, hkeyed e he x hx⟩
  have hmem := (new2_left price).mem_iff.mp hleft
  rw [List.mem_append, or_self] at hmem
  exact List.mem_toArray.mpr hmem |> Array.mem_toList_iff.mpr

/-- The iterator the miner builds yields every pending transaction twice: once as a head, and
once more when `Shift` takes it from its sender's waiting list. -/
theorem peekShift_new2_twice (codec : MessageCodec) (price : List Transaction) :
    ∃ N, ∀ fuel, N ≤ fuel →
      ∃ ys, peekShift codec fuel (new2 codec price) = .ok ys ∧ ys.Perm (price ++ price) := by
  refine ⟨(new2 codec price).count + 1, fun fuel hfuel => ?_⟩
  obtain ⟨ys, hys, hperm⟩ := peekShift_perm fuel (new2 codec price) (new2_fed price) (by omega)
  exact ⟨ys, hys, hperm.trans (new2_left price)⟩

example : peekShift pairRuntime.messageCodec 3 (new2 pairRuntime.messageCodec [transferFromSix]) =
    .ok [transferFromSix, transferFromSix] := by
  decide +kernel

end TransactionsByPriceAndNonce
end AuroraChain.Core
