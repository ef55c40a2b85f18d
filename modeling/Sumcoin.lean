import Sumcoin.Lib.Limbs
import Sumcoin.Lib.Sha256
import Sumcoin.Lib.Except
import Sumcoin.Arith.BaseUint
import Sumcoin.Arith.Compact
import Sumcoin.Arith.ArithUint256
import Sumcoin.Arith.BigNum
import Sumcoin.Primitives.Transaction
import Sumcoin.Primitives.Block
import Sumcoin.Primitives.Serialize
import Sumcoin.Script.Script
import Sumcoin.Consensus.Merkle
import Sumcoin.Consensus.Params
import Sumcoin.Consensus.TxCheck
import Sumcoin.Chain.BlockIndex
import Sumcoin.Consensus.Pow
import Sumcoin.Validation.CheckBlock
import Sumcoin.Validation.AcceptHeader
import Sumcoin.Coins.Coins
import Sumcoin.Validation.TxInputs
import Sumcoin.Consensus.StakeModifier
import Sumcoin.Consensus.Kernel
import Sumcoin.Validation.ContextualChecks
import Sumcoin.Lib.ByteReader
import Sumcoin.Primitives.Unserialize
import Sumcoin.Consensus.StakeSelection
import Sumcoin.Lib.Journal
import Sumcoin.Validation.DisconnectBlock
import Sumcoin.Validation.AddressIndex
import Sumcoin.Validation.TxPosition
import Sumcoin.Lib.SipHash
import Sumcoin.Net.BlockEncodings
import Sumcoin.Lib.AListSum
import Sumcoin.Coins.CoinsCache
import Sumcoin.Coins.CacheRefinement
import Sumcoin.Arith.BaseUintArith
import Sumcoin.Chain.ChainTrust
import Sumcoin.Primitives.VarInt
import Sumcoin.Coins.Compressor
import Sumcoin.Coins.CoinRecords
import Sumcoin.Mempool.TxMemPool
import Sumcoin.Validation.AcceptBlock
import Sumcoin.Script.ConditionStack
import Sumcoin.Script.ScriptNum
import Sumcoin.Consensus.MerkleMutation
import Sumcoin.Script.SignatureHash
import Sumcoin.Lib.Radix
import Sumcoin.Util.Base58
import Sumcoin.Util.BlockFilter
import Sumcoin.Chain.Skip
import Sumcoin.Chain.ActiveChain
import Sumcoin.Lib.TagBits
import Sumcoin.Lib.Murmur3
import Sumcoin.Net.RollingBloom
import Sumcoin.Lib.Decimal
import Sumcoin.Util.StrEncodings
import Sumcoin.Util.MoneyStr
import Sumcoin.Lib.Buffer
import Sumcoin.Lib.Simulation
import Sumcoin.Util.Prevector
import Sumcoin.Net.MerkleBlock
import Sumcoin.Lib.Bits
import Sumcoin.Primitives.Streams
import Sumcoin.Util.GCSFilter
