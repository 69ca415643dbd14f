import Rhodes.AckTokens
import Rhodes.Arrays
import Rhodes.AttrIndex
import Rhodes.AttrManager
import Rhodes.AttrRoundTrip
import Rhodes.BlobNames
import Rhodes.Cells
import Rhodes.CircularLog
import Rhodes.ClientChanges
import Rhodes.ClientIds
import Rhodes.ClientRegister
import Rhodes.CommandQueue
import Rhodes.Comparing
import Rhodes.CompletedRound
import Rhodes.ConfirmedFirst
import Rhodes.CreateErrors
import Rhodes.Cut
import Rhodes.Database
import Rhodes.DbVersion
import Rhodes.DeleteMarks
import Rhodes.DeletedFound
import Rhodes.DestroyTable
import Rhodes.DirtyPages
import Rhodes.Downloads
import Rhodes.DurableClose
import Rhodes.EditOrder
import Rhodes.EngineThread
import Rhodes.ExitFinal
import Rhodes.FailStop
import Rhodes.FailedCalls
import Rhodes.FailedIds
import Rhodes.FileCalls
import Rhodes.FileImpl
import Rhodes.FileOutcomes
import Rhodes.FileRefinement
import Rhodes.FindAnswers
import Rhodes.FindExact
import Rhodes.FindLoops
import Rhodes.FindOrders
import Rhodes.FindPages
import Rhodes.FindRows
import Rhodes.FindTexts
import Rhodes.FinishNotify
import Rhodes.FormFields
import Rhodes.GuardedRuns
import Rhodes.HttpChunks
import Rhodes.HttpMessage
import Rhodes.Interleaving
import Rhodes.JavaClient
import Rhodes.JavaLocks
import Rhodes.JavaLogSink
import Rhodes.JavaTransactions
import Rhodes.JournalCalls
import Rhodes.JournalFile
import Rhodes.JournalReads
import Rhodes.JournalRecovery
import Rhodes.JournalReplay
import Rhodes.JournalStart
import Rhodes.Json
import Rhodes.JsonRoundTrip
import Rhodes.JsonTexts
import Rhodes.JsonTokener
import Rhodes.Jsr75File
import Rhodes.Jsr75Refinement
import Rhodes.KeyGrammar
import Rhodes.KeyedRows
import Rhodes.LapBuffer
import Rhodes.LifeCycle
import Rhodes.LimitedTexts
import Rhodes.LinkHash
import Rhodes.LogSink
import Rhodes.Loops
import Rhodes.MalformedPages
import Rhodes.NetRequest
import Rhodes.NoLostChange
import Rhodes.Notifications
import Rhodes.NotifyThread
import Rhodes.ObjectNotify
import Rhodes.ObjectTable
import Rhodes.Outcomes
import Rhodes.PageAccounts
import Rhodes.PageEdits
import Rhodes.PageMerge
import Rhodes.PageOutcomes
import Rhodes.PageShape
import Rhodes.PagedFile
import Rhodes.PagedFileSpecs
import Rhodes.PagedInts
import Rhodes.PagedReadFully
import Rhodes.PairGrowth
import Rhodes.PairParser
import Rhodes.ParamArrival
import Rhodes.ParamBuilds
import Rhodes.ParamPlaces
import Rhodes.ParsedTrees
import Rhodes.ParserSafety
import Rhodes.Paths
import Rhodes.PivotTexts
import Rhodes.Ports
import Rhodes.PullRules
import Rhodes.PulledFiles
import Rhodes.PushDecoded
import Rhodes.PushRound
import Rhodes.PushedFiles
import Rhodes.PushedOnce
import Rhodes.QueryStrings
import Rhodes.Questions
import Rhodes.Queue
import Rhodes.QueueReplay
import Rhodes.RandomAccess
import Rhodes.RandomAccessSpecs
import Rhodes.ReadFully
import Rhodes.ReadersAgree
import Rhodes.RecordHeap
import Rhodes.RecordLists
import Rhodes.Redelivery
import Rhodes.Rename
import Rhodes.RenameObjects
import Rhodes.RhoConfig
import Rhodes.RhoConfigLines
import Rhodes.Rhom
import Rhodes.RhomCalls
import Rhodes.RhomDeletes
import Rhodes.RhomFind
import Rhodes.RhomSql
import Rhodes.RhomStatements
import Rhodes.RhomWrites
import Rhodes.Rounds
import Rhodes.Routes
import Rhodes.RunLoop
import Rhodes.ScannerPorts
import Rhodes.ServerChanges
import Rhodes.Sessions
import Rhodes.Settings
import Rhodes.SettingsLines
import Rhodes.SettingsRoundTrip
import Rhodes.ShownObjects
import Rhodes.SortBlock
import Rhodes.Source
import Rhodes.SqlColumns
import Rhodes.SqlGrammar
import Rhodes.SqlMeaning
import Rhodes.SqlPieces
import Rhodes.SqlSelects
import Rhodes.SqlTables
import Rhodes.SqlToken
import Rhodes.StateMoves
import Rhodes.StateWrites
import Rhodes.Statements
import Rhodes.StoppedJournal
import Rhodes.StoredFound
import Rhodes.StoredRows
import Rhodes.StreamReadFully
import Rhodes.StreamReads
import Rhodes.SyncEngine
import Rhodes.SyncThread
import Rhodes.Threads
import Rhodes.Throwing
import Rhodes.TokenerRuns
import Rhodes.Tokenizer
import Rhodes.TransferRules
import Rhodes.Transfers
import Rhodes.TwoLevel
import Rhodes.Upsert
import Rhodes.Uri
import Rhodes.UriDecoding
import Rhodes.ViewInStep
import Rhodes.WakeUps
import Rhodes.WriteAhead
