import LibraryService.General.Transition
import LibraryService.Application.Reduced
import LibraryService.Application.ReducedRuns
import LibraryService.Application.Coalescing
import LibraryService.Application.Answers
import LibraryService.Application.Keys
import LibraryService.Database.BookStorage
import LibraryService.Database.Uow
import LibraryService.Database.UowBlocks
import LibraryService.Database.UserStorage
import LibraryService.Domain.BookMap
import LibraryService.Domain.BookRefinement
import LibraryService.Domain.Credentials
import LibraryService.Domain.Upload
import LibraryService.OpenLibrary.Stack
import LibraryService.OpenLibrary.StackRuns
import LibraryService.Presentors.Auth
import LibraryService.Presentors.TokenRuns
import LibraryService.Database.Atomicity
import LibraryService.Domain.UploadFaults
import LibraryService.Domain.BookTransactions
import LibraryService.General.Serial
import LibraryService.Domain.BookSerial
import LibraryService.Presentors.BookPatches
import LibraryService.Domain.Pagination
import LibraryService.Presentors.DeletedUsers
import LibraryService.Presentors.UserConflicts
import LibraryService.OpenLibrary.StackRequests
import LibraryService.Application.Cancelling
import LibraryService.OpenLibrary.Keys
import LibraryService.Domain.UploadRequests
import LibraryService.Presentors.BookWrites
import LibraryService.Presentors.Timestamps
import LibraryService.Presentors.RefreshChains
import LibraryService.Presentors.RequestId
import LibraryService.General.InsertLocks
import LibraryService.General.MovingPages
import LibraryService.Database.InsertScripts
import LibraryService.Domain.BookInserts
import LibraryService.Domain.UserInserts
import LibraryService.Domain.MovingBooks
import LibraryService.Presentors.Consumer
import LibraryService.Presentors.BooksApi
import LibraryService.Presentors.DeletedNames
import LibraryService.Presentors.GuardedRoutes
import LibraryService.General.Revisions
import LibraryService.Domain.MigratedLogins
import LibraryService.Domain.CachedUploads
import LibraryService.Presentors.Health
import LibraryService.Domain.UserWrites
import LibraryService.General.Provenance
import LibraryService.Presentors.Sessions
import LibraryService.Presentors.Search
