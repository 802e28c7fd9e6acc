import VgEngine.Lib.Run
import VgEngine.Lib.Bytes
import VgEngine.Lib.Blocks
import VgEngine.Lib.Lru
import VgEngine.Lib.Memory
import VgEngine.Lib.LinkedQueue
import VgEngine.Lib.Tiles
import VgEngine.Lib.RadixTree
import VgEngine.Lib.RadixValues
import VgEngine.Status
import VgEngine.Gguf.Quant
import VgEngine.Gguf.Reader
import VgEngine.Gguf.Hash
import VgEngine.Gguf.Index
import VgEngine.Gguf.Blocks
import VgEngine.Gguf.Layout
import VgEngine.Gguf.Accept
import VgEngine.Gguf.AcceptIndex
import VgEngine.Gguf.Closable
import VgEngine.Gguf.Unique
import VgEngine.Gguf.Range
import VgEngine.Gguf.Complete
import VgEngine.Gguf.CompleteIndex
import VgEngine.Gguf.Read
import VgEngine.Gguf.Write
import VgEngine.Gguf.RoundTrip
import VgEngine.Gguf.ReadPaths
import VgEngine.TensorSource.Model
import VgEngine.TensorSource.Sound
import VgEngine.TensorSource.Pins
import VgEngine.TensorSource.Granted
import VgEngine.TensorSource.Async
import VgEngine.TensorSource.Served
import VgEngine.KvCache.Store
import VgEngine.KvCache.Radix
import VgEngine.KvCache.Pages
import VgEngine.KvCache.Evict
import VgEngine.KvCache.Slots
import VgEngine.KvCache.Sequences
import VgEngine.KvCache.Trees
import VgEngine.KvCache.Owned
import VgEngine.KvCache.Identity
import VgEngine.KvCache.Granted
import VgEngine.KvCache.Prefixes
import VgEngine.KvCache.Lineage
import VgEngine.KvCache.Blank
import VgEngine.KvCache.Isolation
import VgEngine.Lib.UnitDraw
import VgEngine.Lib.Single
import VgEngine.Lib.Shares
import VgEngine.Speculative.Step
import VgEngine.Speculative.Greedy
import VgEngine.Speculative.Law
import VgEngine.Speculative.Sampling
import VgEngine.Generate.Prefill
import VgEngine.Vulkan.Cache
import VgEngine.Vulkan.Kept
import VgEngine.Vulkan.Batch
import VgEngine.Model.Metadata
import VgEngine.Model.Probe
import VgEngine.Model.Config
import VgEngine.Model.Probed
import VgEngine.Model.Loaded
import VgEngine.Model.Shapes
import VgEngine.Model.Norms
import VgEngine.Model.Heads
import VgEngine.Lib.Logged
import VgEngine.Decode.Machine
import VgEngine.Decode.Attention
import VgEngine.Decode.Ffn
import VgEngine.Decode.Decode
import VgEngine.Decode.Spared
import VgEngine.Decode.Reported
import VgEngine.Decode.Complete
import VgEngine.Decode.Passive
import VgEngine.Decode.Products
import VgEngine.Decode.Experts
import VgEngine.Decode.Rows
import VgEngine.Decode.Validated
import VgEngine.Decode.Agrees
import VgEngine.ExpertCache.Model
import VgEngine.ExpertCache.Slots
import VgEngine.ExpertCache.Transparent
import VgEngine.Lib.Probing
import VgEngine.Lib.RankedMerge
import VgEngine.Lib.Utf8
import VgEngine.Tokenizer.Model
import VgEngine.Tokenizer.ArrayText
import VgEngine.Tokenizer.Decode
import VgEngine.Tokenizer.Encode
import VgEngine.Tokenizer.Lookup
import VgEngine.Tokenizer.Emits
import VgEngine.Tokenizer.ByteLevel
import VgEngine.Tokenizer.Greedy
import VgEngine.Tokenizer.Characters
import VgEngine.Tokenizer.Ranked
import VgEngine.Tokenizer.Spaces
import VgEngine.Tokenizer.Fallback
import VgEngine.ThreadPool.Posix
import VgEngine.ThreadPool.Accounting
import VgEngine.ThreadPool.Semaphore
import VgEngine.ThreadPool.ParallelFor
import VgEngine.Lib.Stores
import VgEngine.Lib.BitFields
import VgEngine.Quant.Layout
import VgEngine.Quant.Dequantize
import VgEngine.Quant.Elements
import VgEngine.Quant.Packing
import VgEngine.Quant.Reads
import VgEngine.Quant.Inverts
import VgEngine.Quant.Rows
import VgEngine.Quant.Ranges
import VgEngine.Quant.Dot
import VgEngine.Lib.Workgroup
import VgEngine.Vulkan.MatvecQ8
import VgEngine.Vulkan.Groups
import VgEngine.Vulkan.MatvecExact
import VgEngine.Vulkan.MatvecK
import VgEngine.Vulkan.MatvecKExact
import VgEngine.Vulkan.MatvecPlain
import VgEngine.Vulkan.PlainAgrees
import VgEngine.Decode.Route
import VgEngine.Gguf.Geometry
import VgEngine.Decode.Rope
import VgEngine.Model.KvRows
import VgEngine.Decode.HeadPaths
import VgEngine.Gguf.Tables
import VgEngine.Model.Lookups
import VgEngine.Gguf.ArrayBuffer
import VgEngine.Decode.MoeValue
import VgEngine.Decode.Retry
import VgEngine.Decode.Rewind
import VgEngine.Decode.RopeFrame
import VgEngine.Tokenizer.Cursor
import VgEngine.Tokenizer.MergeBuffer
import VgEngine.Tokenizer.Fits
import VgEngine.Tokenizer.DecodeBuffer
import VgEngine.Generate.Loop
import VgEngine.Generate.Sampler
import VgEngine.Generate.CliSampler
import VgEngine.Speculative.Support
import VgEngine.Lora.Delta
import VgEngine.KvCache.Geometry
import VgEngine.KvCache.PageSize
import VgEngine.KvCache.Accounting
import VgEngine.KvCache.Atomic
import VgEngine.TensorSource.Budgets
import VgEngine.Vulkan.Accounting
import VgEngine.Vulkan.DenseSets
import VgEngine.Decode.Window
import VgEngine.Decode.Reset
import VgEngine.Decode.Device
import VgEngine.Decode.PerOp
import VgEngine.Decode.PerOpBlocks
import VgEngine.Decode.PerOpRefines
import VgEngine.Decode.PerOpNeeds
import VgEngine.Lib.CommandBuffer
import VgEngine.Vulkan.Orders
import VgEngine.Vulkan.DenseOrder
import VgEngine.Vulkan.DenseValue
import VgEngine.Vulkan.DenseHead
import VgEngine.Vulkan.DenseBuffers
import VgEngine.Vulkan.AttnScores
import VgEngine.Vulkan.RowShaders
import VgEngine.Vulkan.DenseRun
import VgEngine.Vulkan.FusedOrder
import VgEngine.Vulkan.BatchOrder
