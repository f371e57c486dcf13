import InotifyTools.Base.Csv
import InotifyTools.Base.Index
import InotifyTools.Base.KeyedMap
import InotifyTools.Base.Ledger
import InotifyTools.Base.Masks
import InotifyTools.Base.Memory
import InotifyTools.Base.Pairing
import InotifyTools.Base.PostOrder
import InotifyTools.Base.Probing
import InotifyTools.Base.Prog
import InotifyTools.Base.Queue
import InotifyTools.Base.Rekeying
import InotifyTools.Base.Relational
import InotifyTools.Base.Replica
import InotifyTools.Implementation.Alarmed
import InotifyTools.Implementation.CheckedFormat
import InotifyTools.Implementation.Consts
import InotifyTools.Implementation.Desk
import InotifyTools.Implementation.EventList
import InotifyTools.Implementation.Fid
import InotifyTools.Implementation.Format
import InotifyTools.Implementation.Garden
import InotifyTools.Implementation.Handle
import InotifyTools.Implementation.Lookup
import InotifyTools.Implementation.Planted
import InotifyTools.Implementation.Reading
import InotifyTools.Implementation.Shifting
import InotifyTools.Implementation.Store
import InotifyTools.Implementation.Sys
import InotifyTools.Implementation.Watching
import InotifyTools.Tools.Common
import InotifyTools.Tools.Inotifywait
import InotifyTools.Tools.Inotifywatch
import InotifyTools.Tools.Options
import InotifyTools.Proofs.Blind
import InotifyTools.Proofs.Books
import InotifyTools.Proofs.Chunks
import InotifyTools.Proofs.Cookies
import InotifyTools.Proofs.Counting
import InotifyTools.Proofs.CsvRecords
import InotifyTools.Proofs.Cursors
import InotifyTools.Proofs.Decoding
import InotifyTools.Proofs.Descriptors
import InotifyTools.Proofs.Effects
import InotifyTools.Proofs.Errno
import InotifyTools.Proofs.EventLists
import InotifyTools.Proofs.EventOptions
import InotifyTools.Proofs.EventStrings
import InotifyTools.Proofs.Excluded
import InotifyTools.Proofs.Failures
import InotifyTools.Proofs.Fanotify
import InotifyTools.Proofs.Feeding
import InotifyTools.Proofs.FidPaths
import InotifyTools.Proofs.Fids
import InotifyTools.Proofs.FileLists
import InotifyTools.Proofs.Filters
import InotifyTools.Proofs.FormatExpansion
import InotifyTools.Proofs.FormatFailures
import InotifyTools.Proofs.FormatSafety
import InotifyTools.Proofs.FormatTokens
import InotifyTools.Proofs.FormatTruncation
import InotifyTools.Proofs.Frames
import InotifyTools.Proofs.Gardens
import InotifyTools.Proofs.Identity
import InotifyTools.Proofs.Inotify
import InotifyTools.Proofs.Invariants
import InotifyTools.Proofs.Kernel
import InotifyTools.Proofs.Landscapes
import InotifyTools.Proofs.Leaks
import InotifyTools.Proofs.Listening
import InotifyTools.Proofs.Log
import InotifyTools.Proofs.Lookups
import InotifyTools.Proofs.Masked
import InotifyTools.Proofs.MoreFuel
import InotifyTools.Proofs.Moves
import InotifyTools.Proofs.Neighbours
import InotifyTools.Proofs.NewDirectories
import InotifyTools.Proofs.Pairs
import InotifyTools.Proofs.Programs
import InotifyTools.Proofs.Pursuits
import InotifyTools.Proofs.Reachable
import InotifyTools.Proofs.Records
import InotifyTools.Proofs.Rewriting
import InotifyTools.Proofs.Runs
import InotifyTools.Proofs.Silence
import InotifyTools.Proofs.Sorting
import InotifyTools.Proofs.Sound
import InotifyTools.Proofs.SoundEvents
import InotifyTools.Proofs.SoundOps
import InotifyTools.Proofs.Store
import InotifyTools.Proofs.Surveys
import InotifyTools.Proofs.Tables
import InotifyTools.Proofs.TimeFormats
import InotifyTools.Proofs.Tracker
import InotifyTools.Proofs.Transcripts
import InotifyTools.Proofs.Unseen
import InotifyTools.Proofs.Vanishing
import InotifyTools.Proofs.Verdict
import InotifyTools.Proofs.Visible
import InotifyTools.Proofs.WalkCalls
import InotifyTools.Proofs.WalkTrees
import InotifyTools.Proofs.Walks
import InotifyTools.Proofs.WatchCounts
