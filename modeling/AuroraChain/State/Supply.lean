import AuroraChain.State.StateDB
/-!
# What the state holds in total

Conservation is stated over sums, over all accounts, of what the getters return: coin
(`GetBalance + GetLockBalance`) and the balance of one asset (`GetAssetBalance`). An account the
state does not know reads as zero, so the sums run over the addresses of the trie and of the live
objects. A nil lock balance counts as zero.
-/

namespace AuroraChain.State

namespace StateDB

/-- The addresses the state knows, each once. -/
def addresses (s : StateDB) : List Address :=
  (s.trie.keys ++ s.stateObjects.keys).dedup

/-- `GetBalance(a) + GetLockBalance(a)`. -/
def coinOf (s : StateDB) (a : Address) : Int :=
  (s.getBalance a).1 + ((s.getLockBalance a).1.getD 0)

/-- The coin of all accounts. -/
def totalCoin (s : StateDB) : Int :=
  ((s.addresses).map s.coinOf).sum

/-- The balance of asset `asset` summed over all accounts. -/
def totalAsset (s : StateDB) (asset : Address) : Int :=
  ((s.addresses).map fun a => (s.getAssetBalance a asset).1).sum

end StateDB

end AuroraChain.State
