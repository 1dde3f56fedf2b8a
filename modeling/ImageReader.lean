import ImageReader.CApiSessions
import ImageReader.CApi
import ImageReader.S3Source
import ImageReader.FetchLimiterEnds
import ImageReader.S3Creds
import ImageReader.E01VerifyEnds
import ImageReader.Verify
import ImageReader.NbdAdapters
import ImageReader.NbdImageFormat
import ImageReader.E01FastPaths
import ImageReader.E01HasherRuns
import ImageReader.E01Leftover
import ImageReader.E01OpenChecks
import ImageReader.E01ReadSegment
import ImageReader.FoyerCold
import ImageReader.VmdkGrainStream
import ImageReader.VmdkSources
import ImageReader.FoyerSpeculation
import ImageReader.NbdHandshake
import ImageReader.NbdSession
import ImageReader.RawdiskMissing
import ImageReader.RawdiskNames
import ImageReader.RawdiskReader
import ImageReader.ReadClamping
import ImageReader.SegmentProbes
import ImageReader.VmdkChain
import ImageReader.VmdkDescriptionLines
import ImageReader.VmdkDivisions
import ImageReader.VmdkFooter
import ImageReader.VmdkSeSparse
import ImageReader.VmdkSectors
import ImageReader.VmdkSpanOrder
import ImageReader.FoyerWarming
import ImageReader.VmdkSpanRuns
import ImageReader.E01Globbing
import ImageReader.E01ChunkCache
import ImageReader.CacheReadSeek
import ImageReader.VmdkParentWalk
import ImageReader.VmdkSparseSpans
import ImageReader.CApiHandles
