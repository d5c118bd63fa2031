import Marketplace.App
import Marketplace.Auth
import Marketplace.Chats
import Marketplace.Deployment
import Marketplace.Dto
import Marketplace.Entities
import Marketplace.Events
import Marketplace.Gateway
import Marketplace.Http
import Marketplace.Identity
import Marketplace.Items
import Marketplace.Lib.AllSettled
import Marketplace.Lib.Alone
import Marketplace.Lib.Base64Url
import Marketplace.Lib.Constraints
import Marketplace.Lib.Deadlock
import Marketplace.Lib.DotSegments
import Marketplace.Lib.Failing
import Marketplace.Lib.InsertionMap
import Marketplace.Lib.Interference
import Marketplace.Lib.Isolation
import Marketplace.Lib.Keyset
import Marketplace.Lib.Like
import Marketplace.Lib.Migrations
import Marketplace.Lib.Once
import Marketplace.Lib.OrderBy
import Marketplace.Lib.Owners
import Marketplace.Lib.Paging
import Marketplace.Lib.Provenance
import Marketplace.Lib.ReadCommitted
import Marketplace.Lib.Reads
import Marketplace.Lib.Replies
import Marketplace.Lib.Rooms
import Marketplace.Lib.Rounding
import Marketplace.Lib.Rules
import Marketplace.Lib.Simulation
import Marketplace.Lib.Stages
import Marketplace.Lib.Table
import Marketplace.Lib.Turns
import Marketplace.Lib.TwoRun
import Marketplace.Lib.UniqueIndex
import Marketplace.Lib.Uri
import Marketplace.Lib.Words
import Marketplace.Migrations
import Marketplace.Money
import Marketplace.Notifications
import Marketplace.Orders
import Marketplace.PeerTokens
import Marketplace.Proof.Agreement
import Marketplace.Proof.Auth
import Marketplace.Proof.Authentication
import Marketplace.Proof.Authority
import Marketplace.Proof.Badges
import Marketplace.Proof.ContactData
import Marketplace.Proof.Conversations
import Marketplace.Proof.Deadlock
import Marketplace.Proof.Delivery
import Marketplace.Proof.Deployment
import Marketplace.Proof.DeviceTokens
import Marketplace.Proof.Effects
import Marketplace.Proof.Errors
import Marketplace.Proof.Failures
import Marketplace.Proof.Handlers
import Marketplace.Proof.History
import Marketplace.Proof.IdentityCache
import Marketplace.Proof.ImageUrls
import Marketplace.Proof.Inbox
import Marketplace.Proof.InboxHistory
import Marketplace.Proof.InboxPages
import Marketplace.Proof.Integrity
import Marketplace.Proof.LifeCycle
import Marketplace.Proof.Lists
import Marketplace.Proof.Login
import Marketplace.Proof.Migrations
import Marketplace.Proof.Notices
import Marketplace.Proof.OnSale
import Marketplace.Proof.OrderNotifications
import Marketplace.Proof.PaymentSlips
import Marketplace.Proof.PeerTokens
import Marketplace.Proof.Privacy
import Marketplace.Proof.ProfileUpdates
import Marketplace.Proof.Pushes
import Marketplace.Proof.Receipts
import Marketplace.Proof.Rejections
import Marketplace.Proof.Replays
import Marketplace.Proof.Reservations
import Marketplace.Proof.Responses
import Marketplace.Proof.Revocation
import Marketplace.Proof.RoomNames
import Marketplace.Proof.Rows
import Marketplace.Proof.Runs
import Marketplace.Proof.Schema
import Marketplace.Proof.Search
import Marketplace.Proof.Seed
import Marketplace.Proof.Serial
import Marketplace.Proof.Server
import Marketplace.Proof.Signatures
import Marketplace.Proof.Stock
import Marketplace.Proof.Totals
import Marketplace.Proof.Trades
import Marketplace.Proof.Unread
import Marketplace.Proof.Upgrades
import Marketplace.Proof.UploadRuns
import Marketplace.Proof.UploadedUrls
import Marketplace.Proof.Uploads
import Marketplace.Schema
import Marketplace.Server
import Marketplace.Storage
import Marketplace.System
import Marketplace.Text
import Marketplace.UploadRuns
import Marketplace.Uploads
import Marketplace.Users
