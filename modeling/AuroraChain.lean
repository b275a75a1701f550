import AuroraChain.Lib.SortedMap
import AuroraChain.Lib.Journal
import AuroraChain.Common.Types
import AuroraChain.DelegateState.Basic
import AuroraChain.DelegateState.DelegateDB
import AuroraChain.DelegateState.Revert
import AuroraChain.DelegateState.Ranking
import AuroraChain.Lib.GoSlice
import AuroraChain.State.Basic
import AuroraChain.State.StateDB
import AuroraChain.Core.Vote
import AuroraChain.Core.Types
import AuroraChain.Dpos.Verify
import AuroraChain.Dpos.Shuffle
import AuroraChain.Aoa.TaskManager
import AuroraChain.Vm.Evm
import AuroraChain.State.Asset
import AuroraChain.State.Revert
import AuroraChain.Core.Transition
import AuroraChain.State.Supply
import AuroraChain.Core.Processor
import AuroraChain.Core.BlockChain
import AuroraChain.Lib.GoHeap
import AuroraChain.Core.Miner
import AuroraChain.DelegateState.Local
import AuroraChain.Core.VoteOrder
import AuroraChain.Aoa.Quorum
import AuroraChain.Aoa.Schedule
import AuroraChain.Aoa.WheelRefinement
import AuroraChain.Rlp.Decode
import AuroraChain.Rlp.Encode
import AuroraChain.Lib.EStateRun
import AuroraChain.Rlp.Codec
import AuroraChain.Core.TxList
import AuroraChain.Core.TxPool
import AuroraChain.Core.PriceAndNonce
import AuroraChain.Aoa.HandleMsg
import AuroraChain.Core.Signer
import AuroraChain.Trie.Encoding
import AuroraChain.Trie.Node
import AuroraChain.Trie.Map
import AuroraChain.Trie.Insert
import AuroraChain.Trie.Delete
import AuroraChain.Common.Big
import AuroraChain.Common.Bitutil
import AuroraChain.Lib.GoSort
import AuroraChain.State.AssetList
import AuroraChain.Task.Timer
import AuroraChain.Trie.Proof
import AuroraChain.Core.TxListCaps
import AuroraChain.Lib.GoHeapOrder
import AuroraChain.Core.TxSortedMap
import AuroraChain.Downloader.Queue
import AuroraChain.Downloader.QueueResults
import AuroraChain.Lib.Walk
import AuroraChain.Vm.Analysis
import AuroraChain.Vm.Memory
import AuroraChain.Trie.Trie
import AuroraChain.Trie.Unique
import AuroraChain.Trie.Hash
import AuroraChain.Rlp.Buffer
import AuroraChain.Rlp.Raw
import AuroraChain.State.Frame
import AuroraChain.Vm.SenderFrame
import AuroraChain.Core.SenderNonce
