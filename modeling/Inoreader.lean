import Inoreader.Lib.Tx
import Inoreader.Lib.Table
import Inoreader.Lib.Run
import Inoreader.Lib.Paging
import Inoreader.Lib.Text
import Inoreader.Core.Article
import Inoreader.Core.Rules
import Inoreader.Core.Subscription
import Inoreader.Ingest.Model
import Inoreader.Store.Db
import Inoreader.Store.Queue
import Inoreader.Store.Rules
import Inoreader.Store.Delivery
import Inoreader.Store.Frames
import Inoreader.Store.Poll
import Inoreader.Store.Content
import Inoreader.Store.Jobs
import Inoreader.Repository.Articles
import Inoreader.Repository.Rules
import Inoreader.Library.Index
import Inoreader.Library.Deliver
import Inoreader.Library.Links
import Inoreader.Library.States
import Inoreader.Library.Run
import Inoreader.Library.Consistency
import Inoreader.Library.Revisions
import Inoreader.Library.Regroup
import Inoreader.Library.Redeliver
import Inoreader.Library.Presentation
import Inoreader.Engine.Content
import Inoreader.Engine.Fanout
import Inoreader.Repository.Subscriptions
import Inoreader.Queue.World
import Inoreader.Queue.Rows
import Inoreader.Queue.Invariant
import Inoreader.Queue.Fencing
import Inoreader.Queue.Retries
import Inoreader.Lib.Proc
import Inoreader.Store.Backlog
import Inoreader.Engine.Poll
import Inoreader.Engine.InitialPoll
import Inoreader.Lib.Chunks
import Inoreader.Rules.Turns
import Inoreader.Rules.Jobs
import Inoreader.Rules.Scope
import Inoreader.Rules.Order
import Inoreader.Rules.World
import Inoreader.Rules.Yield
import Inoreader.Rules.Batches
import Inoreader.Rules.Archive
import Inoreader.Rules.Application
import Inoreader.Server.Rules
import Inoreader.Rules.Preview
import Inoreader.Lib.Decimal
import Inoreader.Lib.Sums
import Inoreader.Ai.Pricing
import Inoreader.Ai.Chat
import Inoreader.Ai.Tariffs
import Inoreader.Ai.Jobs
import Inoreader.Ai.Db
import Inoreader.Ai.Budget
import Inoreader.Ai.Spending
import Inoreader.Lib.Lists
import Inoreader.Ai.Definitions
import Inoreader.Ai.Interests
import Inoreader.Ai.Translations
import Inoreader.Ai.ChatDocument
import Inoreader.Ai.Calls
import Inoreader.Ai.Chats
import Inoreader.Ai.ChatState
import Inoreader.Ai.ChatRecords
import Inoreader.Ai.ChatSteps
import Inoreader.Ai.ChatChange
import Inoreader.Ai.ChatOps
import Inoreader.Ai.ChatWorld
import Inoreader.Ai.ChatView
import Inoreader.Ai.ChatReview
import Inoreader.Ai.ChatFencing
import Inoreader.Application.Service
import Inoreader.Repository.Identity
import Inoreader.Lib.Except
import Inoreader.Application.Auth
import Inoreader.Application.Sessions
import Inoreader.Application.Credentials
import Inoreader.Lib.JsonText
import Inoreader.Ai.Segments
import Inoreader.Ai.SegmentScan
import Inoreader.Ai.SegmentGrammar
import Inoreader.Ai.Review
import Inoreader.Client.ChatMarkdown
import Inoreader.Ai.Quotations
import Inoreader.Lib.Splice
import Inoreader.Ai.Corrections
import Inoreader.Lib.Blocks
import Inoreader.Lib.Json
import Inoreader.Ai.Segmentation
import Inoreader.Glossary.Post
import Inoreader.Glossary.Store
import Inoreader.Glossary.Moves
import Inoreader.Glossary.Projection
import Inoreader.Glossary.Conflicts
import Inoreader.Glossary.History
import Inoreader.Glossary.Polling
import Inoreader.Glossary.Updates
import Inoreader.Web.ProxyHealth
import Inoreader.Web.ProxyQuarantine
import Inoreader.Web.Network
import Inoreader.Web.HttpClient
import Inoreader.Web.Confinement
import Inoreader.Lib.Cidr
import Inoreader.Web.Addresses
import Inoreader.Repository.LoginAttempts
import Inoreader.Lib.MixedRadix
import Inoreader.Core.ArrivalOrder
import Inoreader.Ai.Schedule
import Inoreader.Lib.Tiling
import Inoreader.Lib.Pointers
import Inoreader.Wiki.Command
import Inoreader.Wiki.Store
import Inoreader.Wiki.Consistency
import Inoreader.Client.ArticleChat
import Inoreader.Client.ChatRepeats
import Inoreader.Engine.Recollection
import Inoreader.Queue.RetryTimes
import Inoreader.Library.Reading
import Inoreader.Library.MarkRun
import Inoreader.Library.Counters
import Inoreader.Ai.FeedOrder
import Inoreader.Wiki.Links
import Inoreader.Library.Summaries
import Inoreader.Core.Publication
import Inoreader.Rules.Literal
import Inoreader.Core.WebFeed
import Inoreader.Core.WebFeedJson
import Inoreader.Repository.Recipes
import Inoreader.Lib.OrderBy
import Inoreader.Lib.Like
import Inoreader.Lib.Offsets
import Inoreader.Lib.Calendar
import Inoreader.Search.Query
import Inoreader.Search.Isolation
import Inoreader.Search.Completeness
import Inoreader.Lib.Xml
import Inoreader.Server.Opml
import Inoreader.Lib.Cuts
import Inoreader.Glossary.StyledText
import Inoreader.Glossary.DefinitionParser
import Inoreader.Client.SourceTreemap
import Inoreader.Lib.JsValue
import Inoreader.Client.ReadingSession
import Inoreader.Client.SessionClock
import Inoreader.Client.ReadingPhases
import Inoreader.Lib.Progress
import Inoreader.Client.MarkdownBlocks
import Inoreader.Client.MarkdownInline
import Inoreader.Server.Seed
import Inoreader.Server.SeedRuns
import Inoreader.Lib.Forest
import Inoreader.Client.Annotations
import Inoreader.Client.AnnotationFrames
import Inoreader.Client.AnnotationMarks
import Inoreader.Lib.LineFeed
import Inoreader.Ai.Stream
import Inoreader.Ai.StreamTrace
import Inoreader.Wiki.Access
import Inoreader.Wiki.AccessSteps
import Inoreader.Wiki.AccessRuns
import Inoreader.Wiki.Reads
import Inoreader.Wiki.Privacy
import Inoreader.Ingest.ZhihuCookies
import Inoreader.Ingest.Zhihu
import Inoreader.Ai.Crypto
import Inoreader.Ingest.ZhihuRuns
