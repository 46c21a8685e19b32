import DevbitBackend.Lib.Transition
import DevbitBackend.Lib.Locks
import DevbitBackend.Lib.Txn
import DevbitBackend.Lib.TxnLogic
import DevbitBackend.Lib.TxnProgress
import DevbitBackend.Lib.TxnSolo
import DevbitBackend.Lib.TxnSpelled
import DevbitBackend.Lib.TxnAnswers
import DevbitBackend.Lib.TxnNotes
import DevbitBackend.Lib.Monitor
import DevbitBackend.Lib.Serial
import DevbitBackend.Lib.Noninterference
import DevbitBackend.Lib.Clearing
import DevbitBackend.Lib.Keyset
import DevbitBackend.Lib.Offset
import DevbitBackend.Lib.Like
import DevbitBackend.Lib.Base64
import DevbitBackend.Lib.Json
import DevbitBackend.Lib.Pbkdf2
import DevbitBackend.Lib.Snapshot
import DevbitBackend.Text
import DevbitBackend.Account.Model
import DevbitBackend.Account.Tables
import DevbitBackend.Account.Handlers
import DevbitBackend.Account.Contracts
import DevbitBackend.Account.Codes
import DevbitBackend.Account.Cooldown
import DevbitBackend.Account.Avatar
import DevbitBackend.Account.Uploads
import DevbitBackend.Social.Model
import DevbitBackend.Social.Tables
import DevbitBackend.Social.Handlers
import DevbitBackend.Social.Pairs
import DevbitBackend.Social.Invariant
import DevbitBackend.Social.Commits
import DevbitBackend.Social.Contracts
import DevbitBackend.Social.Runs
import DevbitBackend.Social.Friendship
import DevbitBackend.Social.Lifecycle
import DevbitBackend.Social.Messages
import DevbitBackend.Social.Failures
import DevbitBackend.Social.Events
import DevbitBackend.Social.Relationship
import DevbitBackend.Social.Mirror
import DevbitBackend.Social.Torn
import DevbitBackend.Social.Repeats
import DevbitBackend.Social.Listings
import DevbitBackend.Social.Blocking
import DevbitBackend.Ws.Registry
import DevbitBackend.Ws.Presence
import DevbitBackend.Lib.SlidingWindow
import DevbitBackend.RateLimit.Limiter
import DevbitBackend.RateLimit.Exact
import DevbitBackend.RateLimit.Memory
import DevbitBackend.RateLimit.Retry
import DevbitBackend.RateLimit.Racing
import DevbitBackend.Ws.Sockets
import DevbitBackend.Ws.AuthOk
import DevbitBackend.Auth.Identity
import DevbitBackend.Auth.Cookies
import DevbitBackend.Auth.Password
import DevbitBackend.Auth.Pbkdf2
import DevbitBackend.Ws.Session
import DevbitBackend.Ws.Handshake
import DevbitBackend.Ws.Snapshot
import DevbitBackend.Ws.Alike
import DevbitBackend.Ws.Privacy
import DevbitBackend.Lib.TxnEmbed
import DevbitBackend.Account.Login
import DevbitBackend.Account.Passwords
import DevbitBackend.Account.Registrations
import DevbitBackend.Account.Mailboxes
import DevbitBackend.Forum.Model
import DevbitBackend.Forum.Tables
import DevbitBackend.Forum.Handlers
import DevbitBackend.Forum.Invariant
import DevbitBackend.Forum.Contracts
import DevbitBackend.Forum.Access
import DevbitBackend.Forum.History
import DevbitBackend.Forum.Repeats
import DevbitBackend.Forum.CommentLocks
import DevbitBackend.Forum.Views
import DevbitBackend.Forum.Likes
import DevbitBackend.Forum.Delivery
import DevbitBackend.Social.Profiles
import DevbitBackend.Social.Cursors
import DevbitBackend.Social.Paging
import DevbitBackend.Social.Searches
import DevbitBackend.Social.Payloads
import DevbitBackend.Social.CursorBinding
import DevbitBackend.Social.Unauthorized
import DevbitBackend.Forum.Unauthorized
import DevbitBackend.Forum.LikeSearch
import DevbitBackend.Lib.Catalog
import DevbitBackend.Lib.Heap
import DevbitBackend.Migrations.LegacyFriends
import DevbitBackend.Migrations.VerifyCodes
import DevbitBackend.Migrations.Columns
import DevbitBackend.Forum.Storable
import DevbitBackend.Lib.TxnBound
import DevbitBackend.Lib.TxnOrder
import DevbitBackend.Lib.TxnWrites
import DevbitBackend.Lib.TxnReads
import DevbitBackend.Lib.TxnSerials
import DevbitBackend.Lib.Select
import DevbitBackend.Social.Authorship
import DevbitBackend.Social.Provenance
import DevbitBackend.Forum.Authorship
import DevbitBackend.Forum.Provenance
import DevbitBackend.Forum.References
import DevbitBackend.Forum.Listings
import DevbitBackend.Forum.Limits
import DevbitBackend.Auth.Tokens
import DevbitBackend.Account.Sessions
import DevbitBackend.Account.SessionLife
import DevbitBackend.Account.Progress
import DevbitBackend.Forum.Progress
import DevbitBackend.Lib.Numeral
import DevbitBackend.RateLimit.Address
import DevbitBackend.RateLimit.Middleware
import DevbitBackend.Router.Server
import DevbitBackend.Router.Admission
import DevbitBackend.Router.History
import DevbitBackend.Router.Quota
import DevbitBackend.Router.Clients
