import YoutubeRecords.CommandProgram
import YoutubeRecords.ProgramPool
import YoutubeRecords.AccountStore
import YoutubeRecords.AccountViews
import YoutubeRecords.SessionPromises
import YoutubeRecords.SessionSoundness
import YoutubeRecords.CheckThenAct
import YoutubeRecords.Registration
import YoutubeRecords.RequestEffects
import YoutubeRecords.SessionLifetimes
import YoutubeRecords.Credentials
import YoutubeRecords.OrderedDict
import YoutubeRecords.Documents
import YoutubeRecords.VideoIngestion
import YoutubeRecords.SearchViews
import YoutubeRecords.IngestionPromises
import YoutubeRecords.QueryUniqueness
import YoutubeRecords.StoreCoherence
import YoutubeRecords.IngestionEffects
import YoutubeRecords.ElasticAgreement
import YoutubeRecords.SavedVideos
import YoutubeRecords.SavedPaging
import YoutubeRecords.IngestionSchedules
import YoutubeRecords.LoginIdentity
import YoutubeRecords.BulkFetches
import YoutubeRecords.FetchedAnswers
import YoutubeRecords.FailedFetches
import YoutubeRecords.AnswerAgreement
import YoutubeRecords.FollowUps
import YoutubeRecords.EntryExpiry
import YoutubeRecords.KeyOwnership
import YoutubeRecords.Outcomes
import YoutubeRecords.TokenVerification
import YoutubeRecords.MiddlewareAgreement
import YoutubeRecords.SessionCompleteness
import YoutubeRecords.BulkPaging
import YoutubeRecords.Lockstep
import YoutubeRecords.QueryRenaming
import YoutubeRecords.QueryPrivacy
import YoutubeRecords.RefreshGrants
import YoutubeRecords.StableOrder
import YoutubeRecords.PublishedStamps
import YoutubeRecords.PageOrder
import YoutubeRecords.Calendar
import YoutubeRecords.CommandEmbedding
import YoutubeRecords.FilterDates
import YoutubeRecords.TextPatterns
import YoutubeRecords.SiteStore
import YoutubeRecords.SiteViews
import YoutubeRecords.SiteRefinement
import YoutubeRecords.SiteProvenance
import YoutubeRecords.SessionTable
import YoutubeRecords.AnswerOrigins
import YoutubeRecords.IndexAnswers
import YoutubeRecords.TopicFulfilment
import YoutubeRecords.UserIsolation
import YoutubeRecords.SearchAnswers
import YoutubeRecords.DataRefinement
import YoutubeRecords.ReferencedVideos
