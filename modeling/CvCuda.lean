import CvCuda.Lib.Rounding
import CvCuda.Nvcv.Exception
import CvCuda.Nvcv.Detail
import CvCuda.Cvcuda.Workspace
import CvCuda.Cvcuda.Proof.Workspace
import CvCuda.Lib.LinkPath
import CvCuda.Lib.Placement
import CvCuda.Lib.Run
import CvCuda.Nvcv.LockFreeStack
import CvCuda.Nvcv.Proof.LockFreeStack
import CvCuda.Lib.RowMajor
import CvCuda.Nvcv.TensorData
import CvCuda.Nvcv.Proof.Reshape
import CvCuda.Nvcv.HandleManager
import CvCuda.Nvcv.Proof.HandleManager
import CvCuda.Nvcv.Proof.HandlePolicy
import CvCuda.Lib.RefStore
import CvCuda.Nvcv.CoreObject
import CvCuda.Lib.Int32
import CvCuda.Nvcv.Proof.TensorBatch
import CvCuda.Nvcv.Proof.CoreObject
import CvCuda.Lib.Bitfield
import CvCuda.Nvcv.ColorSpec
import CvCuda.Nvcv.DataLayout
import CvCuda.Nvcv.ImageFormat
import CvCuda.Nvcv.Proof.ImageFormat
import CvCuda.Nvcv.Proof.ExtraChannels
import CvCuda.Lib.Aggregate
import CvCuda.Nvcv.Image
import CvCuda.Nvcv.ImageBatchVarShape
import CvCuda.Nvcv.Proof.ImageBatchVarShape
import CvCuda.Nvcv.Proof.ImageBatchCalls
import CvCuda.Nvcv.Proof.ImageBatchMirror
import CvCuda.Lib.Owners
import CvCuda.Lib.StreamOrder
import CvCuda.Nvcv.BatchCommands
import CvCuda.Nvcv.Proof.BatchFence
import CvCuda.Nvcv.Proof.ImageBatchStreams
import CvCuda.Nvcv.Proof.TensorBatchStreams
import CvCuda.Nvcv.Proof.BatchStreams
import CvCuda.Nvcv.ImageBatchOwners
import CvCuda.Nvcv.Proof.ImageBatchOwners
import CvCuda.Cvcuda.StreamId
import CvCuda.Cvcuda.Proof.StreamId
import CvCuda.Lib.Outcome
import CvCuda.Nvcv.Math
import CvCuda.Nvcv.Tensor
import CvCuda.Nvcv.Requirements
import CvCuda.Nvcv.Proof.Requirements
import CvCuda.Nvcv.Proof.TensorRequirements
import CvCuda.Nvcv.Proof.TensorWrap
import CvCuda.Nvcv.Planes
import CvCuda.Nvcv.Proof.Planes
import CvCuda.Lib.Int64
import CvCuda.Lib.Tally
import CvCuda.Nvcvpy.Cache
import CvCuda.Nvcvpy.Proof.Cache
import CvCuda.Lib.WorkQueue
import CvCuda.Cvcuda.BoxBlur
import CvCuda.Cvcuda.Proof.BoxBlur
import CvCuda.Nvcvpy.StreamStack
import CvCuda.Nvcvpy.Proof.StreamStack
import CvCuda.Nvcvpy.Batch
import CvCuda.Nvcvpy.Proof.Batch
import CvCuda.Lib.SectionSearch
import CvCuda.Cvcuda.PerStreamCache
import CvCuda.Cvcuda.Proof.PerStreamCache
import CvCuda.Cvcuda.StreamCacheSession
import CvCuda.Cvcuda.Proof.StreamCacheSession
import CvCuda.Cvcudapy.WorkspaceCache
import CvCuda.Cvcudapy.Proof.WorkspaceCache
import CvCuda.Nvcv.PackingParams
import CvCuda.Nvcvpy.DLPack
import CvCuda.Nvcvpy.ExternalBuffer
import CvCuda.Nvcvpy.Proof.ExternalBuffer
import CvCuda.Nvcvpy.Proof.DLPack
import CvCuda.Lib.FloatRound
import CvCuda.Lib.Kernel
import CvCuda.Cvcuda.HistogramEq
import CvCuda.Cvcuda.Proof.HistogramEq
import CvCuda.Cvcuda.NonMaximumSuppression
import CvCuda.Cvcuda.Proof.NonMaximumSuppression
import CvCuda.Cvcuda.MinAreaRect
import CvCuda.Cvcuda.Proof.MinAreaRect
import CvCuda.Lib.TreeReduce
import CvCuda.Cvcuda.ThresholdTriangle
import CvCuda.Cvcuda.Proof.ThresholdTriangle
import CvCuda.Lib.Compact
import CvCuda.Cvcuda.MinMaxLoc
import CvCuda.Cvcuda.Proof.MinMaxLoc
import CvCuda.Lib.BlockOps
import CvCuda.Cvcuda.PairwiseMatcher
import CvCuda.Cvcuda.Proof.PairwiseMatcher
import CvCuda.Lib.Replace
import CvCuda.Nvcv.ReplaceAllInline
import CvCuda.Nvcv.Proof.ReplaceAllInline
import CvCuda.Lib.StateCall
import CvCuda.Nvcv.SharedCoreObj
import CvCuda.Nvcv.Proof.SharedCoreObj
import CvCuda.Nvcv.Proof.BatchRanges
import CvCuda.Nvcv.Proof.ReshapeComplete
import CvCuda.Nvcv.Proof.TensorStrided
import CvCuda.Nvcv.Proof.MakePacking
import CvCuda.Nvcv.FormatSetters
import CvCuda.Nvcv.Proof.FormatSetters
import CvCuda.Nvcv.ImageRequirements
import CvCuda.Nvcv.Proof.ImageRequirements
import CvCuda.Lib.Folding
import CvCuda.Cvcuda.BorderWrap
import CvCuda.Cvcuda.Proof.BorderWrap
import CvCuda.Nvcvpy.Resource
import CvCuda.Nvcvpy.Proof.Resource
import CvCuda.Nvcvpy.AuxStream
import CvCuda.Nvcvpy.Proof.AuxStream
import CvCuda.Nvcvpy.ObjectCache
import CvCuda.Nvcvpy.Proof.ObjectCache
import CvCuda.Cvcuda.Erase
import CvCuda.Cvcuda.Proof.Erase
import CvCuda.Cvcuda.Histogram
import CvCuda.Cvcuda.Proof.Histogram
import CvCuda.Lib.Rank
import CvCuda.Lib.ForLoop
import CvCuda.Cvcuda.MedianBlur
import CvCuda.Cvcuda.Proof.MedianBlur
import CvCuda.Lib.Wrapping
import CvCuda.Cvcuda.Ptr2dNHWC
import CvCuda.Cvcuda.Proof.Ptr2dNHWC
import CvCuda.Lib.Unicode
import CvCuda.Cvcuda.SplitUtf8
import CvCuda.Cvcuda.Proof.SplitUtf8
import CvCuda.Lib.Custody
import CvCuda.Nvcv.Callback
import CvCuda.Nvcv.Proof.Callback
import CvCuda.Nvcv.StaticVector
import CvCuda.Nvcv.Proof.StaticVector
import CvCuda.Cvcuda.PillowResize
import CvCuda.Cvcuda.Proof.PillowResize
import CvCuda.Cvcuda.PillowResizeVarShape
import CvCuda.Cvcuda.Proof.PillowResizeVarShape
import CvCuda.Cvcuda.PillowResizeWorkspace
import CvCuda.Cvcuda.Proof.PillowResizeWorkspace
import CvCuda.Cvcuda.DivUp
import CvCuda.Cvcuda.Proof.DivUp
import CvCuda.Lib.CInt
import CvCuda.Nvcv.MathAllTypes
import CvCuda.Nvcv.Proof.MathAllTypes
import CvCuda.Cvcuda.NewestReady
import CvCuda.Cvcuda.Proof.NewestReady
import CvCuda.Lib.Forest
import CvCuda.Cvcuda.LabelReduction
import CvCuda.Cvcuda.Proof.LabelReduction
import CvCuda.Lib.Copies
import CvCuda.Cvcuda.TensorWrap
import CvCuda.Cvcuda.Crop
import CvCuda.Cvcuda.Proof.TensorWrap
import CvCuda.Cvcuda.Proof.Crop
import CvCuda.Lib.Labelled
import CvCuda.Nvcv.TensorShape
import CvCuda.Nvcv.Proof.TensorShape
import CvCuda.Lib.Axes
import CvCuda.Nvcv.TensorDataAccess
import CvCuda.Nvcv.Proof.TensorDataAccess
import CvCuda.Nvcvpy.HoldResources
import CvCuda.Nvcvpy.Proof.HoldResources
import CvCuda.Cvcuda.Reformat
import CvCuda.Cvcuda.Proof.Reformat
import CvCuda.Lib.OrderedMap
import CvCuda.Lib.Row
import CvCuda.Cvcuda.GlyphAtlas
import CvCuda.Cvcuda.Proof.GlyphAtlas
import CvCuda.Cvcuda.Proof.GlyphAtlasRuns
import CvCuda.Cvcuda.LabelThreads
import CvCuda.Cvcuda.Proof.LabelThreads
import CvCuda.Cvcuda.Label2D
import CvCuda.Cvcuda.Proof.Label2D
import CvCuda.Cvcuda.Proof.LabelRuns
